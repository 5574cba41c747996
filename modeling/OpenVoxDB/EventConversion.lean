import Mathlib
import OpenVoxDB.GroupBy
import OpenVoxDB.Json

/-!
# Conversion of resource events

Version 5 reports and exported ones list the events of a run, and later versions list its
resources, each with its events: `resource-events-wire->resources` and
`resources->resource-events` of `reports.clj`. A key that is absent or nil is `none`.
-/

namespace OpenVoxDB.EventConversion

open Grouping

/-- What `resource-event->resource` keeps of an event. -/
structure ResourceKey (Time : Type) where
  file : Option String
  line : Option Int
  timestamp : Time
  resourceType : String
  resourceTitle : String
  containmentPath : Option (List String)
  skipped : Bool
  deriving DecidableEq

/-- An event of a resource. -/
structure Event (Time : Type) where
  timestamp : Time
  status : Option String
  property : Option String
  newValue : Json
  oldValue : Json
  message : Option String
  name : Option String
  correctiveChange : Option Bool
  deriving DecidableEq

structure Resource (Time : Type) extends ResourceKey Time where
  events : List (Event Time)
  correctiveChange : Option Bool
  deriving DecidableEq

/-- An event of a version 5 report. -/
structure ResourceEvent (Time : Type) extends Event Time where
  resourceType : String
  resourceTitle : String
  file : Option String
  line : Option Int
  containmentPath : Option (List String)
  deriving DecidableEq

variable {Time : Type}

/-- `resource-event->resource` -/
def resourceEventToResource (e : ResourceEvent Time) : ResourceKey Time where
  file := e.file
  line := e.line
  timestamp := e.timestamp
  resourceType := e.resourceType
  resourceTitle := e.resourceTitle
  containmentPath := e.containmentPath
  skipped := e.status = some "skipped"

/-- `resource-events-wire->resources` -/
def resourceEventsWireToResources [DecidableEq Time] (resourceEvents : List (ResourceEvent Time)) :
    List (Resource Time) :=
  (groupBy resourceEventToResource resourceEvents).map fun group =>
    { group.1 with events := group.2.map (·.toEvent), correctiveChange := none }

/-- `resource->skipped-resource-events` -/
def resourceToSkippedResourceEvents (r : Resource Time) : List (ResourceEvent Time) :=
  [{ resourceType := r.resourceType
     resourceTitle := r.resourceTitle
     file := r.file
     line := r.line
     containmentPath := r.containmentPath
     timestamp := r.timestamp
     name := none
     status := some "skipped"
     property := none
     oldValue := .null
     newValue := .null
     message := none
     correctiveChange := some false }]

/-- `merge` of the fields of a resource and one of its events. -/
def mergeEvent (r : Resource Time) (e : Event Time) : ResourceEvent Time where
  toEvent := e
  resourceType := r.resourceType
  resourceTitle := r.resourceTitle
  file := r.file
  line := r.line
  containmentPath := r.containmentPath

/-- `resource->resource-events` -/
def resourceToResourceEvents (r : Resource Time) : List (ResourceEvent Time) :=
  if r.skipped then resourceToSkippedResourceEvents r
  else if r.events.isEmpty then []
  else r.events.map (mergeEvent r)

/-- `resources->resource-events` -/
def resourcesToResourceEvents (resources : List (Resource Time)) : List (ResourceEvent Time) :=
  resources.flatMap resourceToResourceEvents

/-! ## The round trip -/

/-- `r` is `e`, with a `corrective_change` of its own only where `e` has none. -/
structure Returned (e r : ResourceEvent Time) : Prop where
  fields : { r with correctiveChange := none } = { e with correctiveChange := none }
  correctiveChange : ∀ b, e.correctiveChange = some b → r.correctiveChange = some b

/-- The events come back, each once, in some order. -/
def RoundTrips [DecidableEq Time] (resourceEvents : List (ResourceEvent Time)) : Prop :=
  ∃ l : List (ResourceEvent Time), l.Perm resourceEvents ∧
    List.Forall₂ Returned l
      (resourcesToResourceEvents (resourceEventsWireToResources resourceEvents))

/-- A skipped event that says nothing but that its resource was skipped. -/
structure Blank (e : ResourceEvent Time) : Prop where
  property : e.property = none
  oldValue : e.oldValue = .null
  newValue : e.newValue = .null
  message : e.message = none
  name : e.name = none
  correctiveChange : e.correctiveChange ≠ some true

/-- The skipped events are blank and of different resources. -/
structure SkippedApart (resourceEvents : List (ResourceEvent Time)) : Prop where
  blank : ∀ e ∈ resourceEvents, e.status = some "skipped" → Blank e
  apart : (resourceEvents.filter fun e => e.status = some "skipped").Pairwise fun e e' =>
    resourceEventToResource e ≠ resourceEventToResource e'

section RoundTrip

theorem returned_refl (e : ResourceEvent Time) : Returned e e := ⟨rfl, fun _ h => h⟩

/-- The event that stands for a skipped resource. -/
def skippedEvent (k : ResourceKey Time) : ResourceEvent Time where
  resourceType := k.resourceType
  resourceTitle := k.resourceTitle
  file := k.file
  line := k.line
  containmentPath := k.containmentPath
  timestamp := k.timestamp
  name := none
  status := some "skipped"
  property := none
  oldValue := .null
  newValue := .null
  message := none
  correctiveChange := some false

/-- A blank event comes back from the resource it was of. -/
theorem returned_skippedEvent_iff (e : ResourceEvent Time) (h : e.status = some "skipped") :
    Returned e (skippedEvent (resourceEventToResource e)) ↔ Blank e := by
  obtain ⟨⟨timestamp, status, property, newValue, oldValue, message, name, change⟩, type, title,
    file, line, path⟩ := e
  cases h
  constructor
  · intro hr
    have hf := hr.fields
    simp only [skippedEvent, resourceEventToResource, ResourceEvent.mk.injEq, Event.mk.injEq,
      true_and, and_true] at hf
    obtain ⟨hp, hn, ho, hm, hname⟩ := hf
    refine ⟨hp.symm, ho.symm, hn.symm, hm.symm, hname.symm, ?_⟩
    intro hc
    have hc' := hr.correctiveChange true hc
    simp [skippedEvent] at hc'
  · intro hb
    obtain ⟨hp, ho, hn, hm, hname, hc⟩ := hb
    simp only at hp ho hn hm hname hc
    subst hp ho hn hm hname
    refine ⟨rfl, ?_⟩
    intro b hb
    cases b with
    | false => rfl
    | true => exact absurd hb hc

theorem mergeEvent_eq (k : ResourceKey Time) (e : ResourceEvent Time)
    (h : resourceEventToResource e = k) (events : List (Event Time)) (change : Option Bool) :
    mergeEvent { k with events := events, correctiveChange := change } e.toEvent = e := by
  subst h
  rfl

/-- What becomes of a group of events. -/
def expand (group : ResourceKey Time × List (ResourceEvent Time)) : List (ResourceEvent Time) :=
  resourceToResourceEvents
    { group.1 with events := group.2.map (·.toEvent), correctiveChange := none }

theorem expand_skipped (k : ResourceKey Time) (events : List (ResourceEvent Time))
    (h : k.skipped = true) : expand (k, events) = [skippedEvent k] := by
  simp only [expand, resourceToResourceEvents, if_pos h]
  rfl

theorem expand_of_not_skipped (k : ResourceKey Time) (events : List (ResourceEvent Time))
    (h : k.skipped = false) (hk : ∀ e ∈ events, resourceEventToResource e = k) :
    expand (k, events) = events := by
  have hmerge : (events.map (·.toEvent)).map
      (mergeEvent { k with events := events.map (·.toEvent), correctiveChange := none }) =
        events := by
    rw [List.map_map]
    calc events.map _ = events.map id :=
          List.map_congr_left fun e he => mergeEvent_eq k e (hk e he) _ _
      _ = events := List.map_id events
  simp only [expand, resourceToResourceEvents, h, Bool.false_eq_true, if_false]
  split
  · rename_i hempty
    simp only [List.isEmpty_iff, List.map_eq_nil_iff] at hempty
    exact hempty.symm
  · exact hmerge

variable [DecidableEq Time] (events : List (ResourceEvent Time))

theorem resourcesToResourceEvents_eq :
    resourcesToResourceEvents (resourceEventsWireToResources events) =
      (groupBy resourceEventToResource events).flatMap expand := by
  rw [resourcesToResourceEvents, resourceEventsWireToResources, List.flatMap_map]
  rfl

/-- The events of a group have its key, and it has one. -/
theorem group_key (k : ResourceKey Time) (group : List (ResourceEvent Time))
    (h : (k, group) ∈ groupBy resourceEventToResource events) :
    group ≠ [] ∧ (∀ e ∈ group, resourceEventToResource e = k) ∧ group.Sublist events := by
  obtain ⟨⟨e, he, hk⟩, rfl⟩ := (mem_groupBy resourceEventToResource events k group).mp h
  refine ⟨?_, ?_, List.filter_sublist⟩
  · apply List.ne_nil_of_mem
    exact List.mem_filter.mpr ⟨he, by simpa using hk⟩
  · intro d hd
    simpa using (List.mem_filter.mp hd).2

theorem expand_length_le (group : ResourceKey Time × List (ResourceEvent Time))
    (h : group ∈ groupBy resourceEventToResource events) :
    (expand group).length ≤ group.2.length := by
  obtain ⟨k, es⟩ := group
  obtain ⟨hne, hk, -⟩ := group_key events k es h
  cases hs : k.skipped with
  | true =>
    rw [expand_skipped k es hs]
    exact List.length_pos_iff.mpr hne
  | false => rw [expand_of_not_skipped k es hs hk]

/-- Lists whose concatenations have one length have equal lengths themselves when none is longer
than its counterpart. -/
theorem length_eq_of_flatMap {α β : Type} (f g : α → List β) (l : List α)
    (hle : ∀ a ∈ l, (g a).length ≤ (f a).length)
    (h : (l.flatMap f).length ≤ (l.flatMap g).length) :
    ∀ a ∈ l, (f a).length = (g a).length := by
  induction l with
  | nil => simp
  | cons a l ih =>
    have hrest : ∀ l' : List α, (∀ b ∈ l', (g b).length ≤ (f b).length) →
        (l'.flatMap g).length ≤ (l'.flatMap f).length := by
      intro l' hl'
      induction l' with
      | nil => simp
      | cons b l' ih' =>
        have hb := hl' b (by simp)
        have htail := ih' fun c hc => hl' c (List.mem_cons_of_mem _ hc)
        simp only [List.flatMap_cons, List.length_append]
        omega
    have ha := hle a (by simp)
    have hl := hrest l fun b hb => hle b (List.mem_cons_of_mem _ hb)
    simp only [List.flatMap_cons, List.length_append] at h
    intro b hb
    obtain rfl | hb := List.mem_cons.mp hb
    · omega
    · exact ih (fun c hc => hle c (List.mem_cons_of_mem _ hc)) (by omega) b hb

theorem forall₂_flatMap {α β γ : Type} (R : β → γ → Prop) (f : α → List β) (g : α → List γ)
    (l : List α) (h : ∀ a ∈ l, List.Forall₂ R (f a) (g a)) :
    List.Forall₂ R (l.flatMap f) (l.flatMap g) := by
  induction l with
  | nil => exact List.Forall₂.nil
  | cons a l ih =>
    rw [List.flatMap_cons, List.flatMap_cons]
    exact List.rel_append (h a (by simp)) (ih fun b hb => h b (List.mem_cons_of_mem _ hb))

theorem mem_of_forall₂ {α β : Type} (R : α → β → Prop) (l : List α) (l' : List β)
    (h : List.Forall₂ R l l') (a : α) (ha : a ∈ l) : ∃ b ∈ l', R a b := by
  induction h with
  | nil => simp at ha
  | cons hab _ ih =>
    obtain rfl | ha := List.mem_cons.mp ha
    · exact ⟨_, List.mem_cons_self, hab⟩
    · obtain ⟨b, hb, hr⟩ := ih ha
      exact ⟨b, List.mem_cons_of_mem _ hb, hr⟩

/-- A group of skipped events that are apart is one event. -/
theorem group_singleton (h : SkippedApart events) (k : ResourceKey Time)
    (group : List (ResourceEvent Time)) (hs : k.skipped = true)
    (hg : (k, group) ∈ groupBy resourceEventToResource events) :
    ∃ e ∈ events, e.status = some "skipped" ∧ resourceEventToResource e = k ∧ group = [e] := by
  obtain ⟨hne, hk, hsub⟩ := group_key events k group hg
  have hskipped : ∀ e ∈ group, e.status = some "skipped" := by
    intro e he
    have hkey := hk e he
    rw [← hkey] at hs
    simpa [resourceEventToResource] using hs
  cases group with
  | nil => exact absurd rfl hne
  | cons e rest =>
    refine ⟨e, hsub.subset (by simp), hskipped e (by simp), hk e (by simp), ?_⟩
    cases rest with
    | nil => rfl
    | cons e' rest =>
      have hpair : (e :: e' :: rest).Sublist
          (events.filter fun e => e.status = some "skipped") := by
        have hfilter := hsub.filter fun e => e.status = some "skipped"
        rwa [List.filter_eq_self.mpr (by
          intro d hd
          simpa using hskipped d hd)] at hfilter
      have hapart := (h.apart.sublist hpair)
      have hne' := (List.pairwise_cons.mp hapart).1 e' (by simp)
      exact absurd ((hk e (by simp)).trans (hk e' (by simp)).symm) hne'

theorem roundTrips_of_apart (h : SkippedApart events) : RoundTrips events := by
  refine ⟨(groupBy resourceEventToResource events).flatMap (·.2),
    groupBy_flatMap_perm resourceEventToResource events, ?_⟩
  rw [resourcesToResourceEvents_eq]
  apply forall₂_flatMap
  intro group hg
  obtain ⟨k, es⟩ := group
  cases hs : k.skipped with
  | true =>
    obtain ⟨e, he, hskip, hkey, hes⟩ := group_singleton events h k es hs hg
    rw [expand_skipped k es hs, hes, ← hkey]
    have hr := (returned_skippedEvent_iff e hskip).mpr (h.blank e he hskip)
    exact List.Forall₂.cons hr List.Forall₂.nil
  | false =>
    rw [expand_of_not_skipped k es hs (group_key events k es hg).2.1]
    exact List.forall₂_same.mpr fun e _ => returned_refl e

/-- Events that come back leave no two skipped ones of one resource. -/
theorem skipped_apart_of_roundTrips (h : RoundTrips events) :
    (events.filter fun e => e.status = some "skipped").Pairwise fun e e' =>
      resourceEventToResource e ≠ resourceEventToResource e' := by
  obtain ⟨l, hperm, hreturned⟩ := h
  rw [resourcesToResourceEvents_eq] at hreturned
  have hlen := length_eq_of_flatMap (fun group => group.2) expand
    (groupBy resourceEventToResource events) (expand_length_le events) (by
      rw [(groupBy_flatMap_perm resourceEventToResource events).length_eq, ← hperm.length_eq,
        hreturned.length_eq])
  apply List.pairwise_iff_forall_sublist.mpr
  intro e e' hsub hkey
  have hskip : e.status = some "skipped" := by
    have hmem := hsub.subset (List.mem_cons_self)
    simpa using (List.mem_filter.mp hmem).2
  have hs : (resourceEventToResource e).skipped = true := by
    simpa [resourceEventToResource] using hskip
  have hmem : (resourceEventToResource e,
      events.filter (resourceEventToResource · = resourceEventToResource e)) ∈
        groupBy resourceEventToResource events := by
    apply (mem_groupBy resourceEventToResource events _ _).mpr
    exact ⟨⟨e, (hsub.trans List.filter_sublist).subset List.mem_cons_self, rfl⟩, rfl⟩
  have hone := hlen _ hmem
  rw [expand_skipped _ _ hs] at hone
  have htwo := ((hsub.trans List.filter_sublist).filter
    (resourceEventToResource · = resourceEventToResource e)).length_le
  simp only [hkey, decide_true, List.filter_cons_of_pos, List.filter_nil] at htwo
  rw [hkey] at hone
  simp only [List.length_cons, List.length_nil] at htwo hone
  omega

/-- Skipped events that come back are blank. -/
theorem blank_of_roundTrips (h : RoundTrips events) (e : ResourceEvent Time) (he : e ∈ events)
    (hskip : e.status = some "skipped") : Blank e := by
  obtain ⟨l, hperm, hreturned⟩ := h
  rw [resourcesToResourceEvents_eq] at hreturned
  obtain ⟨r, hr, her⟩ := mem_of_forall₂ Returned l _ hreturned e (hperm.mem_iff.mpr he)
  obtain ⟨⟨k, es⟩, hg, hrg⟩ := List.mem_flatMap.mp hr
  have hfields := congrArg (fun d => d.status) her.fields
  have hkeys := congrArg resourceEventToResource her.fields
  have hstatus : r.status = some "skipped" := by
    rw [← hskip]
    exact hfields
  have hkey : resourceEventToResource r = resourceEventToResource e := hkeys
  cases hs : k.skipped with
  | true =>
    rw [expand_skipped k es hs, List.mem_singleton] at hrg
    have hk : k = resourceEventToResource e := by
      rw [← hkey, hrg]
      obtain ⟨file, line, timestamp, type, title, path, skipped⟩ := k
      cases hs
      rfl
    rw [hrg, hk] at her
    exact (returned_skippedEvent_iff e hskip).mp her
  | false =>
    have hk := (group_key events k es hg).2.1
    rw [expand_of_not_skipped k es hs hk] at hrg
    have hnot : k.skipped = true := by
      rw [← hk r hrg]
      simpa [resourceEventToResource] using hstatus
    rw [hs] at hnot
    exact absurd hnot (by decide)

/-- Events come back exactly when the skipped ones are blank and of different resources. -/
theorem roundTrips_iff : RoundTrips events ↔ SkippedApart events := by
  constructor
  · intro h
    exact ⟨blank_of_roundTrips events h, skipped_apart_of_roundTrips events h⟩
  · exact roundTrips_of_apart events

end RoundTrip

/-- A skipped event that has a message. -/
def skippedWithMessage : ResourceEvent String where
  resourceType := "Notify"
  resourceTitle := "hi"
  file := none
  line := none
  containmentPath := some ["Stage[main]", "Notify[hi]"]
  timestamp := "2011-01-01T12:00:00Z"
  status := some "skipped"
  property := none
  oldValue := .null
  newValue := .null
  message := some "defined 'message' as 'hi'"
  name := none
  correctiveChange := none

theorem roundTrips_fails : ¬ ∀ events : List (ResourceEvent String), RoundTrips events := by
  intro h
  have hb := blank_of_roundTrips [skippedWithMessage] (h _) skippedWithMessage (by simp) rfl
  have hm := hb.message
  simp [skippedWithMessage] at hm

end OpenVoxDB.EventConversion
