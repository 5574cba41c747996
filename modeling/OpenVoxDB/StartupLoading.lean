import Mathlib
import OpenVoxDB.Run

/-!
# Loading the queue at startup

A queue that is opened again holds the commands of earlier runs. `message-loader`
puts them on the command channel while requests already store new ones, in the
directory that the loader walks. The ceiling is the id that the next command was
likely to get when the queue was opened, and tells the two apart.
-/

namespace OpenVoxDB.StartupLoading

variable {Metadata Command : Type}

/-- A stockpile entry. -/
structure Entry (Metadata : Type) where
  id : Nat
  metadata : Metadata
  deriving DecidableEq, Repr

/-- A command ref: the id of its entry, and what is parsed from the metadata. -/
structure CommandRef (Command : Type) where
  id : Nat
  command : Command
  deriving DecidableEq, Repr

inductive Source where
  | loader
  | enqueuer
  deriving DecidableEq, Repr

/-- Where `message-loader` is. -/
inductive Loader (Metadata : Type) where
  | waiting
  /-- `stock/reduce` has begun, with these entries in the queue, and has visited some. -/
  | reducing (present visited : List (Entry Metadata))
  | done

/-- The queue's directory and all entries that it has ever held, the calls of
`do-enqueue-command` between their two steps, and what has been put on the channel. -/
structure Startup (Metadata Command : Type) where
  disk : List (Entry Metadata)
  ever : List (Entry Metadata)
  stored : List (Entry Metadata)
  channel : List (Source × CommandRef Command)
  loader : Loader Metadata

def Startup.opened (existing : List (Entry Metadata)) : Startup Metadata Command :=
  ⟨existing, existing, [], [], .waiting⟩

inductive Event (Metadata : Type) where
  | reduce
  /-- `stock/reduce` calls the loader's function. -/
  | visit (entry : Entry Metadata)
  | finish
  /-- `store-command` has stored an entry. -/
  | store (entry : Entry Metadata)
  /-- The `>!!` of `do-enqueue-command`. -/
  | enqueue (entry : Entry Metadata)
  /-- A command that has been processed is removed. -/
  | discard (entry : Entry Metadata)

section Step

variable (parseMetadata : Metadata → Command) (ceiling : Nat)

def entryToCmdref (entry : Entry Metadata) : CommandRef Command :=
  ⟨entry.id, parseMetadata entry.metadata⟩

/-- What the loader's function does with an entry. -/
def load (channel : List (Source × CommandRef Command)) (entry : Entry Metadata) :
    List (Source × CommandRef Command) :=
  if entry.id < ceiling then channel ++ [(.loader, entryToCmdref parseMetadata entry)]
  else channel

def step [DecidableEq Metadata] (s : Startup Metadata Command) : Event Metadata → Startup Metadata Command
  | .reduce =>
    match s.loader with
    | .waiting => { s with loader := .reducing s.disk [] }
    | _ => s
  | .visit entry =>
    match s.loader with
    | .reducing present visited =>
      { s with
        channel := load parseMetadata ceiling s.channel entry
        loader := .reducing present (entry :: visited) }
    | _ => s
  | .finish =>
    match s.loader with
    | .reducing _ _ => { s with loader := .done }
    | _ => s
  | .store entry =>
    { s with
      disk := s.disk ++ [entry]
      ever := s.ever ++ [entry]
      stored := s.stored ++ [entry] }
  | .enqueue entry =>
    if entry ∈ s.stored then
      { s with
        stored := s.stored.erase entry
        channel := s.channel ++ [(.enqueuer, entryToCmdref parseMetadata entry)] }
    else s
  | .discard entry => { s with disk := s.disk.erase entry }

/-- What an entry is to be put on the channel as. -/
def putOf (entry : Entry Metadata) : Source × CommandRef Command :=
  (if entry.id < ceiling then .loader else .enqueuer, entryToCmdref parseMetadata entry)

/-- Stockpile visits entries once, and all that were there before and still are; it gives new
entries ids of their own from the ceiling on. Only commands taken from the channel are
discarded. -/
def Documented (s : Startup Metadata Command) : Event Metadata → Prop
  | .visit entry => ∀ present visited, s.loader = .reducing present visited →
      entry ∈ s.ever ∧ entry ∉ visited
  | .finish => ∀ present visited, s.loader = .reducing present visited →
      ∀ entry ∈ present, entry ∈ s.disk → entry ∈ visited
  | .store entry => ceiling ≤ entry.id ∧ entry.id ∉ s.ever.map Entry.id
  | .discard entry => entry.id ∈ s.channel.map fun put => put.2.id
  | _ => True

/-- Each command stored is put on the channel once: by the loader if it was there before, else
by the call that stored it. -/
structure ExactlyOnce (s : Startup Metadata Command) : Prop where
  sound : ∀ put ∈ s.channel, ∃ entry ∈ s.ever, put = putOf parseMetadata ceiling entry
  once : (s.channel.map fun put => put.2.id).Nodup
  loaded : s.loader = .done → ∀ entry ∈ s.ever, entry.id < ceiling →
    putOf parseMetadata ceiling entry ∈ s.channel
  enqueued : ∀ entry ∈ s.ever, ceiling ≤ entry.id →
    entry ∈ s.stored ∨ putOf parseMetadata ceiling entry ∈ s.channel

end Step

/-- The entries that the loader has seen. -/
def Loader.visited : Loader Metadata → List (Entry Metadata)
  | reducing _ visited => visited
  | _ => []

section Invariant

variable (parseMetadata : Metadata → Command) (ceiling : Nat)

/-- What the loader, the calls and the channel keep between them. -/
structure Inv (s : Startup Metadata Command) : Prop where
  distinct : (s.ever.map Entry.id).Nodup
  once : (s.channel.map fun put => put.2.id).Nodup
  /-- What is on the channel has been visited, or its call is past its second step. -/
  sound : ∀ put ∈ s.channel, ∃ entry ∈ s.ever, put = putOf parseMetadata ceiling entry ∧
    entry ∉ s.stored ∧ (entry.id < ceiling → s.loader = .done ∨ entry ∈ s.loader.visited)
  visited : ∀ entry ∈ s.loader.visited, entry.id < ceiling →
    putOf parseMetadata ceiling entry ∈ s.channel
  stored : s.stored.Nodup ∧ ∀ entry ∈ s.stored, entry ∈ s.ever ∧ ceiling ≤ entry.id
  enqueued : ∀ entry ∈ s.ever, ceiling ≤ entry.id →
    entry ∈ s.stored ∨ putOf parseMetadata ceiling entry ∈ s.channel
  kept : ∀ entry ∈ s.ever, entry ∈ s.disk ∨ putOf parseMetadata ceiling entry ∈ s.channel
  present : ∀ present visited, s.loader = .reducing present visited →
    ∀ entry ∈ s.ever, entry.id < ceiling → entry ∈ present
  loaded : s.loader = .done → ∀ entry ∈ s.ever, entry.id < ceiling →
    putOf parseMetadata ceiling entry ∈ s.channel

variable {parseMetadata ceiling}

theorem Inv.exactlyOnce {s : Startup Metadata Command} (h : Inv parseMetadata ceiling s) :
    ExactlyOnce parseMetadata ceiling s where
  sound := by
    intro put hput
    obtain ⟨entry, hentry, heq, -⟩ := h.sound put hput
    exact ⟨entry, hentry, heq⟩
  once := h.once
  loaded := h.loaded
  enqueued := h.enqueued

theorem inv_open (existing : List (Entry Metadata)) (hdistinct : (existing.map Entry.id).Nodup)
    (hceiling : ∀ entry ∈ existing, entry.id < ceiling) :
    Inv parseMetadata ceiling (Startup.opened existing) where
  distinct := hdistinct
  once := List.nodup_nil
  sound := fun _ h => by cases h
  visited := fun _ h => by cases h
  stored := ⟨List.nodup_nil, fun _ h => by cases h⟩
  enqueued := by
    intro entry hentry hid
    exact absurd (hceiling entry hentry) (Nat.not_lt.mpr hid)
  kept := fun _ h => .inl h
  present := fun _ _ h => by cases h
  loaded := fun h => by cases h

/-- An entry is on the channel if its id is. -/
theorem Inv.put_of_id {s : Startup Metadata Command} (h : Inv parseMetadata ceiling s)
    {entry : Entry Metadata} (hentry : entry ∈ s.ever)
    (hid : entry.id ∈ s.channel.map fun put => put.2.id) :
    putOf parseMetadata ceiling entry ∈ s.channel ∧ entry ∉ s.stored ∧
      (entry.id < ceiling → s.loader = .done ∨ entry ∈ s.loader.visited) := by
  obtain ⟨put, hput, heq⟩ := List.mem_map.mp hid
  obtain ⟨entry', hentry', rfl, hrest⟩ := h.sound put hput
  have hsame : entry' = entry := List.inj_on_of_nodup_map h.distinct hentry' hentry heq
  subst hsame
  exact ⟨hput, hrest⟩

/-- One more put on the channel, of an entry that was not there. -/
theorem nodup_put {channel : List (Source × CommandRef Command)} {put : Source × CommandRef Command}
    (h : (channel.map fun put => put.2.id).Nodup)
    (hnew : put.2.id ∉ channel.map fun put => put.2.id) :
    ((channel ++ [put]).map fun put => put.2.id).Nodup := by
  rw [List.map_append]
  apply h.append (List.nodup_singleton _)
  intro id hid hput
  have heq : id = put.2.id := List.mem_singleton.mp hput
  exact hnew (heq ▸ hid)

theorem Inv.visit {s : Startup Metadata Command} (h : Inv parseMetadata ceiling s)
    {present visited : List (Entry Metadata)} (hloader : s.loader = .reducing present visited)
    {entry : Entry Metadata} (hentry : entry ∈ s.ever) (hnew : entry ∉ visited) :
    Inv parseMetadata ceiling
      { s with
        channel := load parseMetadata ceiling s.channel entry
        loader := .reducing present (entry :: visited) } := by
  have hseen : ∀ entry' : Entry Metadata, s.loader = .done ∨ entry' ∈ s.loader.visited →
      entry' ∈ visited := by
    intro entry' hor
    rw [hloader] at hor
    obtain hdone | hmem := hor
    · cases hdone
    · exact hmem
  by_cases hid : entry.id < ceiling
  · have hput : putOf parseMetadata ceiling entry = (.loader, entryToCmdref parseMetadata entry) := by
      simp [putOf, hid]
    have hfresh : entry.id ∉ s.channel.map fun put => put.2.id := by
      intro hmem
      obtain ⟨-, -, hor⟩ := h.put_of_id hentry hmem
      exact hnew (hseen entry (hor hid))
    have hsub : ∀ put, put ∈ s.channel →
        put ∈ s.channel ++ [(.loader, entryToCmdref parseMetadata entry)] :=
      fun put hmem => List.mem_append_left _ hmem
    simp only [load, hid, if_true]
    refine ⟨h.distinct, nodup_put h.once hfresh, ?_, ?_, h.stored, ?_, ?_, ?_, fun hd => by cases hd⟩
    · intro put hmem
      obtain hmem | hmem := List.mem_append.mp hmem
      · obtain ⟨entry', hentry', heq, hnot, hor⟩ := h.sound put hmem
        exact ⟨entry', hentry', heq, hnot, fun hlt => .inr (List.mem_cons_of_mem _ (hseen _ (hor hlt)))⟩
      · refine ⟨entry, hentry, (List.mem_singleton.mp hmem).trans hput.symm, ?_,
          fun _ => .inr List.mem_cons_self⟩
        intro hstored
        have hle := (h.stored.2 entry hstored).2
        omega
    · intro entry' hmem hlt
      obtain rfl | hmem := List.mem_cons.mp hmem
      · rw [hput]
        exact List.mem_append_right _ List.mem_cons_self
      · have hvisited : entry' ∈ s.loader.visited := by rw [hloader]; exact hmem
        exact hsub _ (h.visited entry' hvisited hlt)
    · exact fun entry' hmem hle => (h.enqueued entry' hmem hle).imp_right (hsub _)
    · exact fun entry' hmem => (h.kept entry' hmem).imp_right (hsub _)
    · intro present' visited' heq
      cases heq
      exact h.present present visited hloader
  · simp only [load, hid, if_false]
    refine ⟨h.distinct, h.once, ?_, ?_, h.stored, h.enqueued, h.kept, ?_, fun hd => by cases hd⟩
    · intro put hmem
      obtain ⟨entry', hentry', heq, hnot, hor⟩ := h.sound put hmem
      exact ⟨entry', hentry', heq, hnot, fun hlt => .inr (List.mem_cons_of_mem _ (hseen _ (hor hlt)))⟩
    · intro entry' hmem hlt
      obtain rfl | hmem := List.mem_cons.mp hmem
      · exact absurd hlt hid
      · have hvisited : entry' ∈ s.loader.visited := by rw [hloader]; exact hmem
        exact h.visited entry' hvisited hlt
    · intro present' visited' heq
      cases heq
      exact h.present present visited hloader

theorem Inv.reduce {s : Startup Metadata Command} (h : Inv parseMetadata ceiling s)
    (hloader : s.loader = .waiting) :
    Inv parseMetadata ceiling { s with loader := .reducing s.disk [] } := by
  have hunseen : ∀ entry : Entry Metadata, ¬ (s.loader = .done ∨ entry ∈ s.loader.visited) := by
    intro entry hor
    rw [hloader] at hor
    obtain hdone | hmem := hor
    · cases hdone
    · cases hmem
  refine ⟨h.distinct, h.once, ?_, fun _ hmem => (by cases hmem), h.stored, h.enqueued, h.kept, ?_,
    fun hd => by cases hd⟩
  · intro put hmem
    obtain ⟨entry, hentry, heq, hnot, hor⟩ := h.sound put hmem
    exact ⟨entry, hentry, heq, hnot, fun hlt => absurd (hor hlt) (hunseen entry)⟩
  · intro present visited heq entry hentry hlt
    cases heq
    -- An entry below the ceiling cannot have been processed: the loader has put nothing yet.
    obtain hdisk | hput := h.kept entry hentry
    · exact hdisk
    · have hid : entry.id ∈ s.channel.map fun put => put.2.id := List.mem_map.mpr ⟨_, hput, rfl⟩
      obtain ⟨-, -, hor⟩ := h.put_of_id hentry hid
      exact absurd (hor hlt) (hunseen entry)

theorem Inv.finish {s : Startup Metadata Command} (h : Inv parseMetadata ceiling s)
    {present visited : List (Entry Metadata)} (hloader : s.loader = .reducing present visited)
    (hall : ∀ entry ∈ present, entry ∈ s.disk → entry ∈ visited) :
    Inv parseMetadata ceiling { s with loader := .done } := by
  refine ⟨h.distinct, h.once, ?_, fun _ hmem => (by cases hmem), h.stored, h.enqueued, h.kept,
    fun _ _ hd => (by cases hd), ?_⟩
  · intro put hmem
    obtain ⟨entry, hentry, heq, hnot, -⟩ := h.sound put hmem
    exact ⟨entry, hentry, heq, hnot, fun _ => .inl rfl⟩
  · intro _ entry hentry hlt
    obtain hdisk | hput := h.kept entry hentry
    · have hseen := hall entry (h.present present visited hloader entry hentry hlt) hdisk
      have hvisited : entry ∈ s.loader.visited := by rw [hloader]; exact hseen
      exact h.visited entry hvisited hlt
    · exact hput

theorem Inv.store {s : Startup Metadata Command} (h : Inv parseMetadata ceiling s)
    {entry : Entry Metadata} (hid : ceiling ≤ entry.id) (hnew : entry.id ∉ s.ever.map Entry.id) :
    Inv parseMetadata ceiling
      { s with
        disk := s.disk ++ [entry]
        ever := s.ever ++ [entry]
        stored := s.stored ++ [entry] } := by
  have hfresh : ∀ entry' ∈ s.ever, entry' ≠ entry := by
    rintro entry' hmem rfl
    exact hnew (List.mem_map_of_mem hmem)
  have hnot : ∀ entry' ∈ s.ever, entry' ∉ s.stored → entry' ∉ s.stored ++ [entry] := by
    intro entry' hmem hstored hboth
    obtain hboth | hboth := List.mem_append.mp hboth
    · exact hstored hboth
    · exact hfresh entry' hmem (List.mem_singleton.mp hboth)
  refine ⟨?_, h.once, ?_, h.visited, ⟨?_, ?_⟩, ?_, ?_, ?_, ?_⟩
  · rw [List.map_append]
    apply h.distinct.append (List.nodup_singleton _)
    intro id hmem hentry
    exact hnew (List.mem_singleton.mp hentry ▸ hmem)
  · intro put hmem
    obtain ⟨entry', hentry', heq, hstored, hor⟩ := h.sound put hmem
    exact ⟨entry', List.mem_append_left _ hentry', heq, hnot entry' hentry' hstored, hor⟩
  · apply h.stored.1.append (List.nodup_singleton _)
    intro entry' hmem hentry
    exact hfresh entry' (h.stored.2 entry' hmem).1 (List.mem_singleton.mp hentry)
  · intro entry' hmem
    obtain hmem | hmem := List.mem_append.mp hmem
    · exact ⟨List.mem_append_left _ (h.stored.2 entry' hmem).1, (h.stored.2 entry' hmem).2⟩
    · rw [List.mem_singleton.mp hmem]
      exact ⟨List.mem_append_right _ List.mem_cons_self, hid⟩
  · intro entry' hmem hle
    obtain hmem | hmem := List.mem_append.mp hmem
    · exact (h.enqueued entry' hmem hle).imp_left (List.mem_append_left _)
    · exact .inl (List.mem_append_right _ hmem)
  · intro entry' hmem
    obtain hmem | hmem := List.mem_append.mp hmem
    · exact (h.kept entry' hmem).imp_left (List.mem_append_left _)
    · exact .inl (List.mem_append_right _ hmem)
  · intro present visited hloader entry' hmem hlt
    obtain hmem | hmem := List.mem_append.mp hmem
    · exact h.present present visited hloader entry' hmem hlt
    · rw [List.mem_singleton.mp hmem] at hlt
      omega
  · intro hdone entry' hmem hlt
    obtain hmem | hmem := List.mem_append.mp hmem
    · exact h.loaded hdone entry' hmem hlt
    · rw [List.mem_singleton.mp hmem] at hlt
      omega

variable [DecidableEq Metadata]

theorem Inv.enqueue {s : Startup Metadata Command} (h : Inv parseMetadata ceiling s)
    {entry : Entry Metadata} (hstored : entry ∈ s.stored) :
    Inv parseMetadata ceiling
      { s with
        stored := s.stored.erase entry
        channel := s.channel ++ [(.enqueuer, entryToCmdref parseMetadata entry)] } := by
  obtain ⟨hentry, hid⟩ := h.stored.2 entry hstored
  have hput : putOf parseMetadata ceiling entry = (.enqueuer, entryToCmdref parseMetadata entry) := by
    simp [putOf, Nat.not_lt.mpr hid]
  have hfresh : entry.id ∉ s.channel.map fun put => put.2.id := by
    intro hmem
    obtain ⟨-, hnot, -⟩ := h.put_of_id hentry hmem
    exact hnot hstored
  have hsub : ∀ put, put ∈ s.channel →
      put ∈ s.channel ++ [(.enqueuer, entryToCmdref parseMetadata entry)] :=
    fun put hmem => List.mem_append_left _ hmem
  refine ⟨h.distinct, nodup_put h.once hfresh, ?_, ?_, ⟨h.stored.1.erase _, ?_⟩, ?_, ?_, h.present,
    ?_⟩
  · intro put hmem
    obtain hmem | hmem := List.mem_append.mp hmem
    · obtain ⟨entry', hentry', heq, hnot, hor⟩ := h.sound put hmem
      exact ⟨entry', hentry', heq, fun hs => hnot (List.mem_of_mem_erase hs), hor⟩
    · refine ⟨entry, hentry, (List.mem_singleton.mp hmem).trans hput.symm, ?_, ?_⟩
      · exact h.stored.1.not_mem_erase
      · intro hlt
        omega
  · exact fun entry' hmem hlt => hsub _ (h.visited entry' hmem hlt)
  · exact fun entry' hmem => h.stored.2 entry' (List.mem_of_mem_erase hmem)
  · intro entry' hmem hle
    by_cases heq : entry' = entry
    · rw [heq, hput]
      exact .inr (List.mem_append_right _ List.mem_cons_self)
    · obtain hold | hold := h.enqueued entry' hmem hle
      · exact .inl ((List.mem_erase_of_ne heq).mpr hold)
      · exact .inr (hsub _ hold)
  · exact fun entry' hmem => (h.kept entry' hmem).imp_right (hsub _)
  · exact fun hdone entry' hmem hlt => hsub _ (h.loaded hdone entry' hmem hlt)

theorem Inv.discard {s : Startup Metadata Command} (h : Inv parseMetadata ceiling s)
    {entry : Entry Metadata} (hid : entry.id ∈ s.channel.map fun put => put.2.id) :
    Inv parseMetadata ceiling { s with disk := s.disk.erase entry } := by
  refine ⟨h.distinct, h.once, h.sound, h.visited, h.stored, h.enqueued, ?_, h.present, h.loaded⟩
  intro entry' hmem
  by_cases heq : entry' = entry
  · subst heq
    exact .inr (h.put_of_id hmem hid).1
  · exact (h.kept entry' hmem).imp_left (List.mem_erase_of_ne heq).mpr

theorem inv_step (s : Startup Metadata Command) (e : Event Metadata)
    (h : Inv parseMetadata ceiling s) (he : Documented ceiling s e) :
    Inv parseMetadata ceiling (step parseMetadata ceiling s e) := by
  cases e with
  | reduce =>
    cases hloader : s.loader with
    | waiting => simpa only [step, hloader] using h.reduce hloader
    | _ => simpa only [step, hloader] using h
  | visit entry =>
    cases hloader : s.loader with
    | reducing present visited =>
      obtain ⟨hentry, hnew⟩ := he present visited hloader
      simpa only [step, hloader] using h.visit hloader hentry hnew
    | _ => simpa only [step, hloader] using h
  | finish =>
    cases hloader : s.loader with
    | reducing present visited =>
      simpa only [step, hloader] using h.finish hloader (he present visited hloader)
    | _ => simpa only [step, hloader] using h
  | store entry => exact h.store he.1 he.2
  | enqueue entry =>
    simp only [step]
    split
    · next hstored => exact h.enqueue hstored
    · exact h
  | discard entry => exact h.discard he

/-- However the loader and the calls interleave, every command is put on the channel once. -/
theorem exactlyOnce_along_run (parseMetadata : Metadata → Command) (nextLikelyId : Nat)
    (existing : List (Entry Metadata)) (es : List (Event Metadata))
    (hdistinct : (existing.map Entry.id).Nodup)
    (hexisting : ∀ entry ∈ existing, entry.id < nextLikelyId)
    (h : Always (step parseMetadata nextLikelyId) (Documented nextLikelyId)
      (Startup.opened existing) es) :
    ExactlyOnce parseMetadata nextLikelyId
      (run (step parseMetadata nextLikelyId) (Startup.opened existing) es) := by
  have hinv := run_history (I := fun _ s => Inv parseMetadata nextLikelyId s)
    (fun _ s e hs he => inv_step s e hs he) es [] (Startup.opened existing)
    (inv_open existing hdistinct hexisting) h
  exact hinv.exactlyOnce

end Invariant

/-- One stored command, and one that a request stores while the loader walks the directory. -/
theorem exactlyOnce_along_run_two :
    ExactlyOnce (fun metadata : String => metadata) 2
      (run (step (fun metadata : String => metadata) 2) (Startup.opened [⟨1, "a"⟩])
        [.reduce, .store ⟨2, "b"⟩, .visit ⟨2, "b"⟩, .visit ⟨1, "a"⟩, .finish, .enqueue ⟨2, "b"⟩]) := by
  apply exactlyOnce_along_run
  · decide
  · decide
  · have hnew : 2 ≤ 2 ∧ 2 ∉ [1] := by decide
    refine ⟨trivial, hnew, ?_, ?_, ?_, trivial, trivial⟩
    · intro present visited hloader
      cases hloader
      decide
    · intro present visited hloader
      cases hloader
      decide
    · intro present visited hloader
      cases hloader
      decide

end OpenVoxDB.StartupLoading
