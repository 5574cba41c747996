import Mathlib
import OpenVoxDB.CatalogStorage
import OpenVoxDB.FactStorage
import OpenVoxDB.LatestWins
import OpenVoxDB.Run
import OpenVoxDB.Time

/-!
# The sorted command buffer

`SortedCommandBuffer` hands commands out by their queue id and marks the
catalogs and facts that a newer command of the same node makes obsolete. It
compares the milliseconds of the queue metadata; the database that executes
the commands compares the timestamp of the payload with the one it stored. The
certid of a queue entry stands for the certname.
-/

namespace OpenVoxDB.CommandBuffer

open LatestWins

inductive CommandType where
  | replaceCatalog
  | replaceFacts
  | storeReport
  | deactivateNode
  | configureExpiration
  | replaceCatalogInputs
  deriving DecidableEq, Repr

/-- The commands the buffer compares. -/
def CommandType.bashed : CommandType → Bool
  | replaceCatalog => true
  | replaceFacts => true
  | _ => false

/-- A command as it is submitted. A request may leave out the producer timestamp that
its payload carries. -/
structure CommandReq (Payload : Type) where
  command : CommandType
  certname : String
  announced : Bool
  producerTimestamp : Instant
  payload : Payload

def CommandReq.producerTs {Payload : Type} (req : CommandReq Payload) : Option Instant :=
  if req.announced then some req.producerTimestamp else none

/-- A command ref, with the payload its queue file holds. -/
structure CommandRef (Payload : Type) where
  id : Nat
  command : CommandType
  certname : String
  received : Instant
  producerTs : Option Instant
  delete : Bool
  producerTimestamp : Instant
  payload : Payload

/-- The received time in milliseconds and the producer's distance to it. -/
def encodeCommandTime (received : Instant) (producerTs : Option Instant) : Int × Option Int :=
  (Instant.toLong received,
    producerTs.map fun ts => Instant.toLong ts - Instant.toLong received)

/-- The producer timestamp that `parse-metadata` reads back. -/
def parseProducerTs (time : Int × Option Int) : Option Instant :=
  time.2.map fun offset => Instant.fromLong (offset + time.1)

theorem parseProducerTs_encodeCommandTime (received : Instant) (producerTs : Option Instant) :
    parseProducerTs (encodeCommandTime received producerTs) =
      producerTs.map fun ts => Instant.fromLong (Instant.toLong ts) := by
  cases producerTs with
  | none => rfl
  | some ts => simp [parseProducerTs, encodeCommandTime]

variable {Payload : Type}

/-- `store-command`: the ref is built from the entry's metadata. -/
def storeCommand (id : Nat) (received : Instant) (req : CommandReq Payload) :
    CommandRef Payload where
  id := id
  command := req.command
  certname := req.certname
  received := Instant.fromLong (encodeCommandTime received req.producerTs).1
  producerTs := parseProducerTs (encodeCommandTime received req.producerTs)
  delete := false
  producerTimestamp := req.producerTimestamp
  payload := req.payload

abbrev Key := CommandType × String

def CommandRef.key (c : CommandRef Payload) : Key := (c.command, c.certname)

/-- `fifo-queue`, a `TreeMap` by id, as the list of its values; and `certnames-map`. -/
structure Buffer (Payload : Type) where
  fifo : List (CommandRef Payload)
  certnames : Key → Option (CommandRef Payload)

def Buffer.empty : Buffer Payload := ⟨[], fun _ => none⟩

/-- `TreeMap.put` under the command's id. -/
def put (c : CommandRef Payload) : List (CommandRef Payload) → List (CommandRef Payload)
  | [] => [c]
  | x :: xs =>
    if c.id < x.id then c :: x :: xs
    else if c.id = x.id then c :: xs
    else x :: put c xs

/-- `remove!` -/
def Buffer.remove (b : Buffer Payload) : Option (CommandRef Payload × Buffer Payload) :=
  match b.fifo with
  | [] => none
  | c :: rest =>
    some (c, ⟨rest, if c.command.bashed then Function.update b.certnames c.key none
      else b.certnames⟩)

/-- `add!*` -/
def Buffer.add (b : Buffer Payload) (c : CommandRef Payload) : Buffer Payload :=
  match c.producerTs with
  | none => { b with fifo := put c b.fifo }
  | some producerTs =>
    if c.command.bashed then
      match b.certnames c.key with
      | none => ⟨put c b.fifo, Function.update b.certnames c.key (some c)⟩
      | some old =>
        if old.producerTs.any fun oldTs => oldTs < producerTs then
          ⟨put c (put { old with delete := true } b.fifo),
            Function.update b.certnames c.key (some c)⟩
        else { b with fifo := put { c with delete := true } b.fifo }
    else { b with fifo := put c b.fifo }

inductive Op (Payload : Type) where
  | add (id : Nat) (received : Instant) (req : CommandReq Payload)
  | remove

/-- A buffer and the commands taken from it, in order. -/
structure Machine (Payload : Type) where
  buffer : Buffer Payload
  taken : List (CommandRef Payload)

def Machine.empty : Machine Payload := ⟨Buffer.empty, []⟩

def step (m : Machine Payload) : Op Payload → Machine Payload
  | .add id received req => { m with buffer := m.buffer.add (storeCommand id received req) }
  | .remove =>
    match m.buffer.remove with
    | none => m
    | some (c, b) => ⟨b, m.taken ++ [c]⟩

/-- What `catalogs` and `factsets` keep of a command. -/
structure Version (Payload : Type) where
  producerTimestamp : Instant
  payload : Payload
  deriving DecidableEq, Repr

/-- The stored submissions, by kind and node. -/
abbrev Stored (Payload : Type) := Key → Option (Version Payload)

def CommandRef.version (c : CommandRef Payload) : Version Payload :=
  ⟨c.producerTimestamp, c.payload⟩

theorem recorded_le_recorded (x y : Version Payload)
    (h : Instant.toTimestamptz x.producerTimestamp ≤ y.producerTimestamp) :
    Instant.toTimestamptz x.producerTimestamp ≤ Instant.toTimestamptz y.producerTimestamp :=
  Instant.le_toTimestamptz_of_le h

theorem recorded_le_of_lt_recorded (x y : Version Payload)
    (h : y.producerTimestamp < Instant.toTimestamptz x.producerTimestamp) :
    Instant.toTimestamptz y.producerTimestamp ≤ Instant.toTimestamptz x.producerTimestamp :=
  Instant.toTimestamptz_le_of_le (Int.le_of_lt h)

/-- The staleness check of `replace-catalog!` and `replace-facts!`: the column, rounded
when it was written, must not be after the incoming timestamp. -/
def staleness : Stamping (Version Payload) Int where
  stamp := Version.producerTimestamp
  recorded := fun v => Instant.toTimestamptz v.producerTimestamp
  recorded_le := recorded_le_recorded
  le_recorded := recorded_le_of_lt_recorded

/-- Execute commands one after the other. -/
def execute (stored : Stored Payload) (cs : List (CommandRef Payload)) : Stored Payload :=
  settleAllAt staleness stored (cs.map fun c => (c.key, c.version))

/-- Drop the commands marked `:delete?` and execute the others. -/
def process (stored : Stored Payload) (cs : List (CommandRef Payload)) : Stored Payload :=
  execute stored (cs.filter fun c => !c.delete)

/-- The commands that have been taken or are still to be. -/
def Machine.commands (m : Machine Payload) : List (CommandRef Payload) := m.taken ++ m.buffer.fifo

/-- A command put into the buffer is a catalog or facts, under an id of its own. -/
def ValidOp (m : Machine Payload) : Op Payload → Prop
  | .add id _ req => req.command.bashed = true ∧ id ∉ m.commands.map (·.id)
  | .remove => True

/-- When the command put in has the same millisecond as the tracked one of its node, it
is obsolete for the database too: the tracked one is stored before it and recorded as
later, or is accepted after it. -/
def TiesObsolete (m : Machine Payload) : Op Payload → Prop
  | .add id _ req =>
    req.announced = true → ∀ old, m.buffer.certnames (req.command, req.certname) = some old →
      Instant.toLong req.producerTimestamp = Instant.toLong old.producerTimestamp →
      if old.id < id then
        req.producerTimestamp < Instant.toTimestamptz old.producerTimestamp
      else Instant.toTimestamptz req.producerTimestamp ≤ old.producerTimestamp
  | .remove => True

/-- Of two members of a list one stands before the other. -/
theorem sublist_pair_or (l : List Nat) (i j : Nat) (hi : i ∈ l) (hj : j ∈ l) (hij : i ≠ j) :
    [i, j].Sublist l ∨ [j, i].Sublist l := by
  induction l with
  | nil => cases hi
  | cons x xs ih =>
    rcases List.mem_cons.mp hi with rfl | hi'
    · have hj' : j ∈ xs := (List.mem_cons.mp hj).resolve_left (Ne.symm hij)
      exact .inl ((List.singleton_sublist.mpr hj').cons_cons i)
    · rcases List.mem_cons.mp hj with rfl | hj'
      · exact .inr ((List.singleton_sublist.mpr hi').cons_cons j)
      · exact (ih hi' hj').imp (·.cons x) (·.cons x)

theorem mem_left_of_sublist_pair (pre post : List Nat) (i j : Nat)
    (hn : (pre ++ j :: post).Nodup) (h : [i, j].Sublist (pre ++ j :: post)) : i ∈ pre := by
  obtain ⟨hpre, hjpost, hdisj⟩ := List.nodup_append.mp hn
  obtain ⟨l₁, l₂, he, h₁, h₂⟩ := List.sublist_append_iff.mp h
  match l₁, he with
  | [], he =>
    have hj : j ∈ post := by
      subst he
      rcases List.sublist_cons_iff.mp h₂ with h₂ | ⟨r, hr, h₂⟩
      · exact h₂.subset (by simp)
      · cases hr
        exact h₂.subset (by simp)
    exact absurd hj (List.nodup_cons.mp hjpost).1
  | [_], he =>
    cases he
    exact h₁.subset (by simp)
  | _ :: _ :: l, he =>
    simp only [List.cons_append, List.cons.injEq] at he
    obtain ⟨rfl, rfl, -⟩ := he
    exact absurd rfl (hdisj _ (h₁.subset (by simp)) _ List.mem_cons_self)

theorem mem_right_of_sublist_pair (pre post : List Nat) (i j : Nat)
    (hn : (pre ++ j :: post).Nodup) (h : [j, i].Sublist (pre ++ j :: post)) : i ∈ post := by
  have hn' : (post.reverse ++ j :: pre.reverse).Nodup := by
    have := List.nodup_reverse.mpr hn
    simpa using this
  have h' : [i, j].Sublist (post.reverse ++ j :: pre.reverse) := by
    have := List.reverse_sublist.mpr h
    simpa using this
  exact List.mem_reverse.mp (mem_left_of_sublist_pair _ _ i j hn' h')

/-- In an ascending list the smaller member stands first. -/
theorem sublist_pair_of_lt (l : List Nat) (i j : Nat) (hl : l.Pairwise (· < ·)) (hi : i ∈ l)
    (hj : j ∈ l) (hij : i < j) : [i, j].Sublist l := by
  rcases sublist_pair_or l i j hi hj (Nat.ne_of_lt hij) with h | h
  · exact h
  · have := List.rel_of_pairwise_cons (hl.sublist h) (List.mem_singleton_self i)
    exact absurd this (Nat.lt_asymm hij)

abbrev ids (cs : List (CommandRef Payload)) : List Nat := cs.map (·.id)

theorem ids_append (cs ds : List (CommandRef Payload)) : ids (cs ++ ds) = ids cs ++ ids ds :=
  List.map_append

/-- Putting a command under a new id inserts it. -/
theorem mem_put_of_new (c : CommandRef Payload) (q : List (CommandRef Payload))
    (h : c.id ∉ ids q) (x : CommandRef Payload) : x ∈ put c q ↔ x = c ∨ x ∈ q := by
  induction q with
  | nil => simp [put]
  | cons y ys ih =>
    simp only [ids, List.map_cons, List.mem_cons, not_or] at h
    simp only [put]
    split
    · simp
    · rw [if_neg h.1, List.mem_cons, ih h.2, List.mem_cons]
      tauto

theorem sublist_put (c : CommandRef Payload) (q : List (CommandRef Payload))
    (h : c.id ∉ ids q) : (ids q).Sublist (ids (put c q)) := by
  induction q with
  | nil => simp
  | cons y ys ih =>
    simp only [ids, List.map_cons, List.mem_cons, not_or] at h
    simp only [put]
    split
    · exact List.sublist_cons_self _ _
    · rw [if_neg h.1]
      exact (ih h.2).cons_cons _

theorem pairwise_put (c : CommandRef Payload) (q : List (CommandRef Payload))
    (hq : (ids q).Pairwise (· < ·)) : (ids (put c q)).Pairwise (· < ·) := by
  induction q with
  | nil => simp [put]
  | cons y ys ih =>
    simp only [ids, List.map_cons, List.pairwise_cons] at hq
    have hmem : ∀ i ∈ ids (put c ys), i = c.id ∨ i ∈ ids ys := by
      intro i
      clear ih hq
      induction ys with
      | nil => simp [put]
      | cons z zs ih =>
        simp only [put]
        split
        · simp
        · split
          · simp
            tauto
          · simp only [ids, List.map_cons, List.mem_cons] at ih ⊢
            tauto
    simp only [put]
    split
    · rename_i hlt
      simp only [ids, List.map_cons, List.pairwise_cons]
      refine ⟨fun i hi => ?_, hq⟩
      rcases List.mem_cons.mp hi with rfl | hi
      · exact hlt
      · exact Nat.lt_trans hlt (hq.1 i hi)
    · split
      · rename_i heq
        simp only [ids, List.map_cons, List.pairwise_cons, heq]
        exact hq
      · simp only [ids, List.map_cons, List.pairwise_cons]
        refine ⟨fun i hi => ?_, ih hq.2⟩
        rcases hmem i hi with rfl | hi
        · omega
        · exact hq.1 i hi

/-- Putting a changed command back under its id replaces it. -/
theorem ids_put_of_mem (c old : CommandRef Payload) (q : List (CommandRef Payload))
    (hq : (ids q).Pairwise (· < ·)) (hid : c.id = old.id) (hold : old ∈ q) :
    ids (put c q) = ids q := by
  induction q with
  | nil => cases hold
  | cons y ys ih =>
    simp only [ids, List.map_cons, List.pairwise_cons] at hq
    rcases List.mem_cons.mp hold with rfl | hold
    · simp [put, hid]
    · have hlt := hq.1 old.id (List.mem_map_of_mem hold)
      simp only [put]
      rw [if_neg (by omega), if_neg (by omega)]
      simp only [ids, List.map_cons, List.cons.injEq, true_and]
      exact ih hq.2 hold

theorem mem_put_of_mem (c old : CommandRef Payload) (q : List (CommandRef Payload))
    (hq : (ids q).Pairwise (· < ·)) (hid : c.id = old.id) (hold : old ∈ q)
    (x : CommandRef Payload) : x ∈ put c q ↔ x = c ∨ x ∈ q ∧ x ≠ old := by
  induction q with
  | nil => cases hold
  | cons y ys ih =>
    simp only [ids, List.map_cons, List.pairwise_cons] at hq
    have hlater : ∀ z ∈ ys, y.id < z.id := fun z hz => hq.1 z.id (List.mem_map_of_mem hz)
    rcases List.mem_cons.mp hold with rfl | hold
    · simp only [put]
      rw [if_neg (by omega), if_pos hid]
      have hne : x ∈ ys → x ≠ old := by
        rintro hx rfl
        exact absurd (hlater x hx) (Nat.lt_irrefl _)
      simp only [List.mem_cons]
      tauto
    · have hlt := hlater old hold
      have hne : y ≠ old := by
        rintro rfl
        exact Nat.lt_irrefl _ hlt
      simp only [put]
      rw [if_neg (by omega), if_neg (by omega), List.mem_cons, ih hq.2 hold, List.mem_cons]
      constructor
      · rintro (rfl | rfl | ⟨hx, hxo⟩)
        · exact .inr ⟨.inl rfl, hne⟩
        · exact .inl rfl
        · exact .inr ⟨.inr hx, hxo⟩
      · rintro (rfl | ⟨rfl | hx, hxo⟩)
        · exact .inr (.inl rfl)
        · exact .inl rfl
        · exact .inr (.inr ⟨hx, hxo⟩)

/-- Everything `add!*` can do. -/
theorem add_cases (b : Buffer Payload) (c : CommandRef Payload) (hc : c.command.bashed = true) :
    (c.producerTs = none ∧ b.add c = { b with fifo := put c b.fifo }) ∨
    (b.certnames c.key = none ∧ c.producerTs.isSome ∧
      b.add c = ⟨put c b.fifo, Function.update b.certnames c.key (some c)⟩) ∨
    ∃ ts old, c.producerTs = some ts ∧ b.certnames c.key = some old ∧
      ((∃ oldTs, old.producerTs = some oldTs ∧ oldTs < ts ∧
        b.add c = ⟨put c (put { old with delete := true } b.fifo),
          Function.update b.certnames c.key (some c)⟩) ∨
      ((∀ oldTs, old.producerTs = some oldTs → ¬ oldTs < ts) ∧
        b.add c = { b with fifo := put { c with delete := true } b.fifo })) := by
  unfold Buffer.add
  cases hts : c.producerTs with
  | none => exact .inl ⟨rfl, rfl⟩
  | some ts =>
    simp only [hc, if_true]
    cases hold : b.certnames c.key with
    | none => exact .inr (.inl ⟨rfl, rfl, rfl⟩)
    | some old =>
      refine .inr (.inr ⟨ts, old, rfl, rfl, ?_⟩)
      by_cases hlt : (old.producerTs.any fun oldTs => oldTs < ts) = true
      · obtain ⟨oldTs, holdTs, hlt'⟩ := (Option.any_eq_true _ _).mp hlt
        exact .inl ⟨oldTs, holdTs, of_decide_eq_true hlt', if_pos hlt⟩
      · refine .inr ⟨fun oldTs holdTs hlt' => hlt ?_, if_neg hlt⟩
        rw [holdTs]
        exact decide_eq_true hlt'

theorem put_perm_of_new (c : CommandRef Payload) (q : List (CommandRef Payload))
    (h : c.id ∉ ids q) : (put c q).Perm (c :: q) := by
  induction q with
  | nil => exact List.Perm.refl _
  | cons x xs ih =>
    simp only [ids, List.map_cons, List.mem_cons, not_or] at h
    simp only [put]
    split
    · exact List.Perm.refl _
    · rw [if_neg h.1]
      exact ((ih h.2).cons x).trans (List.Perm.swap c x xs)

theorem put_perm_of_mem (c old : CommandRef Payload) (q : List (CommandRef Payload))
    (hq : (ids q).Pairwise (· < ·)) (hid : c.id = old.id) (hold : old ∈ q) :
    ∃ rest, q.Perm (old :: rest) ∧ (put c q).Perm (c :: rest) := by
  induction q with
  | nil => cases hold
  | cons x xs ih =>
    simp only [ids, List.map_cons, List.pairwise_cons] at hq
    rcases List.mem_cons.mp hold with rfl | hold
    · refine ⟨xs, List.Perm.refl _, ?_⟩
      simp [put, hid]
    · have hlt := hq.1 old.id (List.mem_map_of_mem hold)
      obtain ⟨rest, hxs, hput⟩ := ih hq.2 hold
      refine ⟨x :: rest, (hxs.cons x).trans (List.Perm.swap old x rest), ?_⟩
      simp only [put]
      rw [if_neg (by omega), if_neg (by omega)]
      exact (hput.cons x).trans (List.Perm.swap c x rest)

/-- The queue is in order, and what `certnames-map` has is in it, under its own key. -/
structure Consistent (Q : CommandRef Payload → Prop) (b : Buffer Payload) : Prop where
  sorted : (ids b.fifo).Pairwise (· < ·)
  tracked : ∀ k x, b.certnames k = some x → x ∈ b.fifo ∧ x.key = k ∧ Q x

theorem consistent_empty (Q : CommandRef Payload → Prop) :
    Consistent Q (Buffer.empty : Buffer Payload) where
  sorted := List.Pairwise.nil
  tracked := fun k x h => by cases h

/-- A command of the queue that is taken leaves the map as well. -/
theorem consistent_remove (Q : CommandRef Payload → Prop) (hQ : ∀ x, Q x → x.command.bashed = true)
    (b b' : Buffer Payload) (hb : Consistent Q b) (c : CommandRef Payload)
    (h : b.remove = some (c, b')) : b.fifo = c :: b'.fifo ∧ Consistent Q b' := by
  unfold Buffer.remove at h
  split at h
  · cases h
  · next c' rest hfifo =>
    cases h
    have hsorted := hb.sorted
    rw [hfifo] at hsorted
    refine ⟨hfifo, (List.pairwise_cons.mp hsorted).2, ?_⟩
    intro k x hx
    dsimp only at hx
    have hkeep : b.certnames k = some x ∧ x ≠ c := by
      split at hx
      · by_cases hk : k = c.key
        · rw [hk, Function.update_self] at hx
          cases hx
        · rw [Function.update_of_ne hk] at hx
          exact ⟨hx, fun hxc => hk ((hb.tracked k x hx).2.1.symm.trans (hxc ▸ rfl))⟩
      · next hbashed => exact ⟨hx, fun hxc => hbashed (hxc ▸ hQ x (hb.tracked k x hx).2.2)⟩
    obtain ⟨hmem, hrest⟩ := hb.tracked k x hkeep.1
    rw [hfifo] at hmem
    exact ⟨(List.mem_cons.mp hmem).resolve_left hkeep.2, hrest⟩

theorem consistent_put (Q : CommandRef Payload → Prop) (b : Buffer Payload) (hb : Consistent Q b)
    (c : CommandRef Payload) (hc : c.id ∉ ids b.fifo) :
    Consistent Q { b with fifo := put c b.fifo } where
  sorted := pairwise_put c b.fifo hb.sorted
  tracked := by
    intro k x hx
    obtain ⟨hmem, hrest⟩ := hb.tracked k x hx
    exact ⟨(mem_put_of_new c b.fifo hc x).mpr (.inr hmem), hrest⟩

/-- `add!*` keeps them so. -/
theorem consistent_add (Q : CommandRef Payload → Prop) (b : Buffer Payload) (hb : Consistent Q b)
    (c : CommandRef Payload) (hc : c.id ∉ ids b.fifo)
    (hQ : c.command.bashed = true → c.producerTs.isSome = true → Q c) :
    Consistent Q (b.add c) := by
  cases hbashed : c.command.bashed with
  | false =>
    have hadd : b.add c = { b with fifo := put c b.fifo } := by
      unfold Buffer.add
      cases c.producerTs <;> simp [hbashed]
    rw [hadd]
    exact consistent_put Q b hb c hc
  | true =>
    obtain ⟨-, hadd⟩ | ⟨-, hts, hadd⟩ | ⟨ts, old, hts, hold, ⟨oldTs, -, -, hadd⟩ | ⟨-, hadd⟩⟩ :=
      add_cases b c hbashed
    · rw [hadd]
      exact consistent_put Q b hb c hc
    · rw [hadd]
      refine ⟨pairwise_put c b.fifo hb.sorted, fun k x hx => ?_⟩
      by_cases hk : k = c.key
      · simp only [hk, Function.update_self, Option.some.injEq] at hx
        rw [← hx, hk]
        exact ⟨(mem_put_of_new c b.fifo hc c).mpr (.inl rfl), rfl, hQ hbashed hts⟩
      · simp only [Function.update_of_ne hk] at hx
        exact (consistent_put Q b hb c hc).tracked k x hx
    · have hmem := (hb.tracked c.key old hold).1
      have hids := ids_put_of_mem { old with delete := true } old b.fifo hb.sorted rfl hmem
      have hnew : c.id ∉ ids (put { old with delete := true } b.fifo) := hids.symm ▸ hc
      rw [hadd]
      refine ⟨pairwise_put c _ (hids.symm ▸ hb.sorted), fun k x hx => ?_⟩
      by_cases hk : k = c.key
      · simp only [hk, Function.update_self, Option.some.injEq] at hx
        rw [← hx, hk]
        exact ⟨(mem_put_of_new c _ hnew c).mpr (.inl rfl), rfl,
          hQ hbashed (Option.isSome_iff_exists.mpr ⟨ts, hts⟩)⟩
      · simp only [Function.update_of_ne hk] at hx
        obtain ⟨hxmem, hkey, hxQ⟩ := hb.tracked k x hx
        -- a command of another key is not the one that is marked
        have hne : x ≠ old := fun he => hk (hkey.symm.trans (he ▸ (hb.tracked c.key old hold).2.1))
        have hput := (mem_put_of_mem { old with delete := true } old b.fifo hb.sorted rfl hmem x).mpr
          (.inr ⟨hxmem, hne⟩)
        exact ⟨(mem_put_of_new c _ hnew x).mpr (.inr hput), hkey, hxQ⟩
    · rw [hadd]
      exact consistent_put Q b hb { c with delete := true } hc

/-- `old` is executed and leaves nothing of `c`, whichever of the two comes first. -/
structure Outdates (cs : List (CommandRef Payload)) (old c : CommandRef Payload) : Prop where
  kept : old.delete = false
  key : old.key = c.key
  toLong_le : Instant.toLong c.producerTimestamp ≤ Instant.toLong old.producerTimestamp
  order : ([old.id, c.id].Sublist (ids cs) ∧
      c.producerTimestamp < Instant.toTimestamptz old.producerTimestamp) ∨
    ([c.id, old.id].Sublist (ids cs) ∧
      Instant.toTimestamptz c.producerTimestamp ≤ old.producerTimestamp)

theorem Outdates.mono {cs cs' : List (CommandRef Payload)} {old c : CommandRef Payload}
    (h : Outdates cs old c) (hcs : (ids cs).Sublist (ids cs')) : Outdates cs' old c :=
  ⟨h.kept, h.key, h.toLong_le,
    h.order.imp (fun ⟨hs, ht⟩ => ⟨hs.trans hcs, ht⟩) fun ⟨hs, ht⟩ => ⟨hs.trans hcs, ht⟩⟩

/-- A command of a later millisecond outdates an earlier one from either side. -/
theorem outdates_of_toLong_lt (cs : List (CommandRef Payload)) (old c : CommandRef Payload)
    (hold : old.id ∈ ids cs) (hc : c.id ∈ ids cs) (hid : old.id ≠ c.id)
    (hkept : old.delete = false) (hkey : old.key = c.key)
    (hlt : Instant.toLong c.producerTimestamp < Instant.toLong old.producerTimestamp) :
    Outdates cs old c := by
  refine ⟨hkept, hkey, Int.le_of_lt hlt, ?_⟩
  rcases sublist_pair_or (ids cs) old.id c.id hold hc hid with h | h
  · exact .inl ⟨h, Instant.lt_toTimestamptz_of_toLong_lt hlt⟩
  · exact .inr ⟨h, Instant.toTimestamptz_le_of_toLong_lt hlt⟩

/-- The metadata has no producer timestamp or the millisecond of the payload's. -/
def Stamped (c : CommandRef Payload) : Prop :=
  ∀ ts, c.producerTs = some ts → ts = Instant.fromLong (Instant.toLong c.producerTimestamp)

theorem stamped_storeCommand (id : Nat) (received : Instant) (req : CommandReq Payload) :
    Stamped (storeCommand id received req) := by
  intro ts h
  simp only [storeCommand, parseProducerTs_encodeCommandTime, CommandReq.producerTs] at h
  split at h
  · exact (Option.some.inj h).symm
  · cases h

theorem fromLong_lt_fromLong (a b : Int) : Instant.fromLong a < Instant.fromLong b ↔ a < b := by
  simp only [Instant.fromLong]
  omega

/-- What `certnames-map` keeps for a key: a command still queued and unmarked. -/
structure Tracked (fifo : List (CommandRef Payload)) (k : Key) (c : CommandRef Payload) : Prop where
  mem : c ∈ fifo
  kept : c.delete = false
  key : c.key = k
  bashed : c.command.bashed = true
  ts : c.producerTs.isSome
  stamped : Stamped c

theorem Tracked.of_mem {fifo fifo' : List (CommandRef Payload)} {k : Key} {c : CommandRef Payload}
    (h : Tracked fifo k c) (hmem : c ∈ fifo') : Tracked fifo' k c :=
  { h with mem := hmem }

/-- What holds between the operations on a buffer. -/
structure Inv (m : Machine Payload) : Prop where
  nodup : (ids m.commands).Nodup
  sorted : (ids m.buffer.fifo).Pairwise (· < ·)
  tracked : ∀ k c, m.buffer.certnames k = some c → Tracked m.buffer.fifo k c
  obsolete : ∀ c ∈ m.commands, c.delete = true → ∃ old ∈ m.commands, Outdates m.commands old c

theorem inv_empty : Inv (Machine.empty : Machine Payload) where
  nodup := List.nodup_nil
  sorted := List.Pairwise.nil
  tracked := fun _ _ h => absurd h.symm (Option.some_ne_none _)
  obsolete := fun _ h => absurd h List.not_mem_nil

/-- The commands after one under a new id has been put. -/
theorem commands_put (m : Machine Payload) (h : Inv m) (c : CommandRef Payload)
    (hc : c.id ∉ ids m.commands) (q : List (CommandRef Payload))
    (hq : ids q = ids m.buffer.fifo) :
    (ids (m.taken ++ put c q)).Nodup ∧ (ids (put c q)).Pairwise (· < ·) ∧
      (ids m.commands).Sublist (ids (m.taken ++ put c q)) ∧
      ∀ x, x ∈ m.taken ++ put c q ↔ x = c ∨ x ∈ m.taken ++ q := by
  have hids : ids m.commands = ids m.taken ++ ids q := by
    rw [hq]
    exact ids_append _ _
  rw [hids, List.mem_append, not_or] at hc
  have hsorted : (ids (put c q)).Pairwise (· < ·) := pairwise_put c q (hq ▸ h.sorted)
  have hmem : ∀ x, x ∈ m.taken ++ put c q ↔ x = c ∨ x ∈ m.taken ++ q := by
    intro x
    rw [List.mem_append, mem_put_of_new c q hc.2, List.mem_append]
    tauto
  refine ⟨?_, hsorted, ?_, hmem⟩
  · obtain ⟨htaken, -, hdisj⟩ := List.nodup_append.mp (hids ▸ h.nodup)
    rw [ids_append]
    refine List.nodup_append.mpr ⟨htaken, hsorted.imp Nat.ne_of_lt, ?_⟩
    intro i hi j hj
    obtain ⟨x, hx, rfl⟩ := List.mem_map.mp hj
    rcases (mem_put_of_new c q hc.2 x).mp hx with rfl | hx
    · exact fun he => hc.1 (he ▸ hi)
    · exact hdisj i hi x.id (List.mem_map_of_mem hx)
  · rw [hids, ids_append]
    exact (sublist_put c q hc.2).append_left _

/-- Taking a command moves it to the end of those taken. -/
theorem remove_cases (m : Machine Payload) :
    step m .remove = m ∨ ∃ c rest, m.buffer.fifo = c :: rest ∧
      step m .remove = ⟨⟨rest, if c.command.bashed then Function.update m.buffer.certnames c.key none
        else m.buffer.certnames⟩, m.taken ++ [c]⟩ := by
  cases h : m.buffer.fifo with
  | nil =>
    left
    simp [step, Buffer.remove, h]
  | cons c rest =>
    right
    refine ⟨c, rest, rfl, ?_⟩
    simp [step, Buffer.remove, h]

theorem commands_remove (m : Machine Payload) : (step m .remove).commands = m.commands := by
  obtain he | ⟨c, rest, hfifo, he⟩ := remove_cases m
  · rw [he]
  · rw [he]
    simp [Machine.commands, hfifo]

theorem inv_remove (m : Machine Payload) (h : Inv m) : Inv (step m .remove) := by
  have hcommands := commands_remove m
  refine ⟨by rw [hcommands]; exact h.nodup, ?_, ?_, by rw [hcommands]; exact h.obsolete⟩
  · obtain he | ⟨c, rest, hfifo, he⟩ := remove_cases m
    · rw [he]
      exact h.sorted
    · rw [he]
      have := h.sorted
      rw [hfifo] at this
      exact (List.pairwise_cons.mp this).2
  · obtain he | ⟨c, rest, hfifo, he⟩ := remove_cases m
    · rw [he]
      exact h.tracked
    · rw [he]
      intro k x hx
      -- the command taken is not tracked any more
      have hkeep : m.buffer.certnames k = some x ∧ x ≠ c := by
        dsimp only at hx
        split at hx
        · by_cases hk : k = c.key
          · rw [hk, Function.update_self] at hx
            cases hx
          · rw [Function.update_of_ne hk] at hx
            exact ⟨hx, fun hxc => hk ((h.tracked k x hx).key.symm.trans (hxc ▸ rfl))⟩
        · rename_i hb
          exact ⟨hx, fun hxc => hb (hxc ▸ (h.tracked k x hx).bashed)⟩
      have htracked := h.tracked k x hkeep.1
      have hmem := htracked.mem
      rw [hfifo] at hmem
      exact htracked.of_mem ((List.mem_cons.mp hmem).resolve_left hkeep.2)

theorem tracked_update (fifo : List (CommandRef Payload))
    (certnames : Key → Option (CommandRef Payload)) (c : CommandRef Payload)
    (hc : Tracked fifo c.key c)
    (h : ∀ k x, k ≠ c.key → certnames k = some x → Tracked fifo k x) :
    ∀ k x, Function.update certnames c.key (some c) k = some x → Tracked fifo k x := by
  intro k x hx
  by_cases hk : k = c.key
  · subst hk
    rw [Function.update_self] at hx
    cases hx
    exact hc
  · rw [Function.update_of_ne hk] at hx
    exact h k x hk hx

theorem not_mem_ids_fifo (m : Machine Payload) (c : CommandRef Payload)
    (hc : c.id ∉ ids m.commands) : c.id ∉ ids m.buffer.fifo := by
  intro hmem
  exact hc (by rw [Machine.commands, ids_append]; exact List.mem_append_right _ hmem)

/-- A command put unmarked disturbs nothing. -/
theorem inv_add_kept (m : Machine Payload) (h : Inv m) (c : CommandRef Payload)
    (hc : c.id ∉ ids m.commands) (hkept : c.delete = false)
    (certnames : Key → Option (CommandRef Payload))
    (htracked : ∀ k x, certnames k = some x → Tracked (put c m.buffer.fifo) k x) :
    Inv ⟨⟨put c m.buffer.fifo, certnames⟩, m.taken⟩ := by
  obtain ⟨hnodup, hsorted, hsub, hmem⟩ := commands_put m h c hc m.buffer.fifo rfl
  refine ⟨hnodup, hsorted, htracked, fun x hx hdel => ?_⟩
  rcases (hmem x).mp hx with rfl | hx
  · rw [hkept] at hdel
    cases hdel
  · obtain ⟨old, hold, hout⟩ := h.obsolete x hx hdel
    exact ⟨old, (hmem old).mpr (.inr hold), hout.mono hsub⟩

/-- A command put marked needs a tracked one that outdates it. -/
theorem inv_add_marked (m : Machine Payload) (h : Inv m) (c : CommandRef Payload)
    (hc : c.id ∉ ids m.commands) (old : CommandRef Payload) (hold : old ∈ m.buffer.fifo)
    (hout : Outdates (m.taken ++ put { c with delete := true } m.buffer.fifo) old
      { c with delete := true }) :
    Inv ⟨⟨put { c with delete := true } m.buffer.fifo, m.buffer.certnames⟩, m.taken⟩ := by
  obtain ⟨hnodup, hsorted, hsub, hmem⟩ :=
    commands_put m h { c with delete := true } hc m.buffer.fifo rfl
  refine ⟨hnodup, hsorted, fun k x hx => ?_, fun x hx hdel => ?_⟩
  · have htracked := h.tracked k x hx
    have hput := mem_put_of_new { c with delete := true } _ (not_mem_ids_fifo m c hc) x
    exact htracked.of_mem (hput.mpr (.inr htracked.mem))
  · rcases (hmem x).mp hx with rfl | hx
    · exact ⟨old, (hmem old).mpr (.inr (List.mem_append_right _ hold)), hout⟩
    · obtain ⟨y, hy, hout⟩ := h.obsolete x hx hdel
      exact ⟨y, (hmem y).mpr (.inr hy), hout.mono hsub⟩

/-- Marking the tracked command for a newer one: what it outdated, the newer outdates. -/
theorem inv_add_newer (m : Machine Payload) (h : Inv m) (c : CommandRef Payload)
    (hc : c.id ∉ ids m.commands) (hkept : c.delete = false) (hbashed : c.command.bashed = true)
    (hts : c.producerTs.isSome) (hstamped : Stamped c)
    (old : CommandRef Payload) (hold : m.buffer.certnames c.key = some old)
    (hlt : Instant.toLong old.producerTimestamp < Instant.toLong c.producerTimestamp) :
    Inv ⟨⟨put c (put { old with delete := true } m.buffer.fifo),
      Function.update m.buffer.certnames c.key (some c)⟩, m.taken⟩ := by
  have holdmem := (h.tracked _ _ hold).mem
  have hkey := (h.tracked _ _ hold).key
  have hids := ids_put_of_mem { old with delete := true } old m.buffer.fifo h.sorted rfl holdmem
  have hmark := mem_put_of_mem { old with delete := true } old m.buffer.fifo h.sorted rfl holdmem
  obtain ⟨hnodup, hsorted, hsub, hmem⟩ := commands_put m h c hc _ hids
  have hfifo := not_mem_ids_fifo m c hc
  have hne : old.id ≠ c.id := fun he => hfifo (he ▸ List.mem_map_of_mem holdmem)
  have hcmem : c ∈ m.taken ++ put c (put { old with delete := true } m.buffer.fifo) :=
    (hmem c).mpr (.inl rfl)
  -- the newer command outdates whatever is no later than the old one
  have hnewer : ∀ x : CommandRef Payload,
      x.id ∈ ids (m.taken ++ put c (put { old with delete := true } m.buffer.fifo)) →
      x.id ≠ c.id → x.key = c.key →
      Instant.toLong x.producerTimestamp ≤ Instant.toLong old.producerTimestamp →
      Outdates (m.taken ++ put c (put { old with delete := true } m.buffer.fifo)) c x := by
    intro x hx hid hxkey hle
    exact outdates_of_toLong_lt _ c x (List.mem_map_of_mem hcmem) hx (Ne.symm hid) hkept
      hxkey.symm (Int.lt_of_le_of_lt hle hlt)
  refine ⟨hnodup, hsorted, ?_, fun x hx hdel => ?_⟩
  · have hput := mem_put_of_new c (put { old with delete := true } m.buffer.fifo) (hids ▸ hfifo)
    refine tracked_update _ _ c ?_ fun k x hk hx => ?_
    · exact ⟨(hput c).mpr (.inl rfl), hkept, rfl, hbashed, hts, hstamped⟩
    · have htracked := h.tracked k x hx
      refine htracked.of_mem ((hput x).mpr (.inr ((hmark x).mpr (.inr ⟨htracked.mem, ?_⟩))))
      rintro rfl
      exact hk (htracked.key.symm.trans hkey)
  · have hxid := List.mem_map_of_mem (f := fun c : CommandRef Payload => c.id) hx
    rcases (hmem x).mp hx with rfl | hx'
    · rw [hkept] at hdel
      cases hdel
    · have hcases : x = { old with delete := true } ∨ x ∈ m.commands ∧ x ≠ old := by
        rcases List.mem_append.mp hx' with htaken | hqueued
        · refine .inr ⟨List.mem_append_left _ htaken, ?_⟩
          rintro rfl
          have hdisj := (List.nodup_append.mp (ids_append _ _ ▸ h.nodup)).2.2
          exact hdisj x.id (List.mem_map_of_mem htaken) x.id (List.mem_map_of_mem holdmem) rfl
        · rcases (hmark x).mp hqueued with rfl | ⟨hxq, hxo⟩
          · exact .inl rfl
          · exact .inr ⟨List.mem_append_right _ hxq, hxo⟩
      rcases hcases with rfl | ⟨hxmem, -⟩
      · exact ⟨c, hcmem, hnewer _ hxid hne hkey (Int.le_refl _)⟩
      · obtain ⟨y, hy, hout⟩ := h.obsolete x hxmem hdel
        by_cases hyo : y = old
        · subst hyo
          refine ⟨c, hcmem, hnewer x hxid ?_ (hout.key.symm.trans hkey) hout.toLong_le⟩
          exact fun he => hc (he ▸ List.mem_map_of_mem hxmem)
        · refine ⟨y, (hmem y).mpr (.inr ?_), hout.mono hsub⟩
          rcases List.mem_append.mp hy with hy | hy
          · exact List.mem_append_left _ hy
          · exact List.mem_append_right _ ((hmark y).mpr (.inr ⟨hy, hyo⟩))

theorem toLong_lt_of_stamped (c old : CommandRef Payload) (hc : Stamped c) (hold : Stamped old)
    (ts oldTs : Instant) (hts : c.producerTs = some ts) (holdTs : old.producerTs = some oldTs) :
    oldTs < ts ↔ Instant.toLong old.producerTimestamp < Instant.toLong c.producerTimestamp := by
  rw [hc ts hts, hold oldTs holdTs, fromLong_lt_fromLong]

/-- A command put beside a tracked one of no earlier millisecond is outdated by it when
the database says so of a tie. -/
theorem outdates_of_put (m : Machine Payload) (h : Inv m) (c : CommandRef Payload)
    (hc : c.id ∉ ids m.commands) (old : CommandRef Payload)
    (htracked : Tracked m.buffer.fifo c.key old)
    (hle : Instant.toLong c.producerTimestamp ≤ Instant.toLong old.producerTimestamp)
    (htie : Instant.toLong c.producerTimestamp = Instant.toLong old.producerTimestamp →
      if old.id < c.id then c.producerTimestamp < Instant.toTimestamptz old.producerTimestamp
      else Instant.toTimestamptz c.producerTimestamp ≤ old.producerTimestamp) :
    Outdates (m.taken ++ put c m.buffer.fifo) old c := by
  obtain ⟨-, hsorted, -, -⟩ := commands_put m h c hc m.buffer.fifo rfl
  have hput := mem_put_of_new c m.buffer.fifo (not_mem_ids_fifo m c hc)
  have hold : old.id ∈ ids (put c m.buffer.fifo) :=
    List.mem_map_of_mem ((hput old).mpr (.inr htracked.mem))
  have hnew : c.id ∈ ids (put c m.buffer.fifo) := List.mem_map_of_mem ((hput c).mpr (.inl rfl))
  have hne : old.id ≠ c.id := fun he =>
    hc (he ▸ List.mem_map_of_mem (List.mem_append_right _ htracked.mem))
  have hsuffix : (ids (put c m.buffer.fifo)).Sublist (ids (m.taken ++ put c m.buffer.fifo)) := by
    rw [ids_append]
    exact List.sublist_append_right _ _
  rcases Int.lt_or_eq_of_le hle with hlt | heq
  · exact outdates_of_toLong_lt _ old c (hsuffix.subset hold) (hsuffix.subset hnew) hne
      htracked.kept htracked.key hlt
  · refine ⟨htracked.kept, htracked.key, hle, ?_⟩
    -- both are queued, so they are taken in the order of their ids
    have htie := htie heq
    by_cases hlt : old.id < c.id
    · rw [if_pos hlt] at htie
      exact .inl ⟨(sublist_pair_of_lt _ _ _ hsorted hold hnew hlt).trans hsuffix, htie⟩
    · rw [if_neg hlt] at htie
      exact .inr ⟨(sublist_pair_of_lt _ _ _ hsorted hnew hold (by omega)).trans hsuffix, htie⟩

/-- One operation keeps the invariant when the ties it decides are obsolete. -/
theorem inv_step (m : Machine Payload) (op : Op Payload) (h : Inv m) (hvalid : ValidOp m op)
    (hties : TiesObsolete m op) : Inv (step m op) := by
  cases op with
  | remove => exact inv_remove m h
  | add id received req =>
    obtain ⟨hbashed, hid⟩ := hvalid
    have hstamped := stamped_storeCommand id received req
    have hput := mem_put_of_new (storeCommand id received req) m.buffer.fifo
      (not_mem_ids_fifo m (storeCommand id received req) hid)
    show Inv ⟨m.buffer.add (storeCommand id received req), m.taken⟩
    obtain ⟨-, he⟩ | ⟨-, hts, he⟩ | ⟨ts, old, hts, hold, hcase⟩ :=
      add_cases m.buffer (storeCommand id received req) hbashed
    · rw [he]
      exact inv_add_kept m h _ hid rfl _ fun k x hx =>
        (h.tracked k x hx).of_mem ((hput x).mpr (.inr (h.tracked k x hx).mem))
    · rw [he]
      refine inv_add_kept m h _ hid rfl _ (tracked_update _ _ _ ?_ fun k x _ hx =>
        (h.tracked k x hx).of_mem ((hput x).mpr (.inr (h.tracked k x hx).mem)))
      exact ⟨(hput _).mpr (.inl rfl), rfl, rfl, hbashed, hts, hstamped⟩
    · have htracked := h.tracked _ _ hold
      obtain ⟨oldTs, holdTs⟩ := Option.isSome_iff_exists.mp htracked.ts
      have hlater := toLong_lt_of_stamped _ _ hstamped htracked.stamped ts oldTs hts holdTs
      rcases hcase with ⟨oldTs', holdTs', hlt, he⟩ | ⟨hnot, he⟩
      · rw [holdTs] at holdTs'
        cases holdTs'
        rw [he]
        exact inv_add_newer m h _ hid rfl hbashed (by rw [hts]; rfl) hstamped old hold
          (hlater.mp hlt)
      · rw [he]
        refine inv_add_marked m h _ hid old htracked.mem ?_
        refine outdates_of_put m h { storeCommand id received req with delete := true } hid old
          htracked (Int.not_lt.mp fun hlt => hnot oldTs holdTs (hlater.mpr hlt)) fun heq => ?_
        have hannounced : req.announced = true := by
          by_contra hno
          simp [storeCommand, CommandReq.producerTs, hno, encodeCommandTime,
            parseProducerTs] at hts
        exact hties hannounced old hold heq

theorem inv_run (ops : List (Op Payload)) (m : Machine Payload) (h : Inv m)
    (hvalid : Always step ValidOp m ops) (hties : Always step TiesObsolete m ops) :
    Inv (run step m ops) := by
  induction ops generalizing m with
  | nil => exact h
  | cons op ops ih =>
    exact ih _ (inv_step m op h hvalid.1 hties.1) hvalid.2 hties.2

/-- Marked commands are superseded where they stand. -/
theorem superseded_of_inv (m : Machine Payload) (h : Inv m) (pre post : List (CommandRef Payload))
    (c : CommandRef Payload) (hsplit : m.commands = pre ++ c :: post) (hdel : c.delete = true) :
    Superseded staleness (fun c => (c.key, c.version)) (fun c => !c.delete) pre c post := by
  have hc : c ∈ m.commands := by simp [hsplit]
  obtain ⟨old, hold, hout⟩ := h.obsolete c hc hdel
  have hids : ids m.commands = ids pre ++ c.id :: ids post := by
    rw [hsplit]
    exact List.map_append
  have hnodup : (ids pre ++ c.id :: ids post).Nodup := hids ▸ h.nodup
  have hunique : ∀ x ∈ m.commands, x.id = old.id → x = old :=
    fun x hx he => List.inj_on_of_nodup_map h.nodup hx hold he
  rcases hout.order with ⟨hsub, hlt⟩ | ⟨hsub, hle⟩
  · obtain ⟨x, hx, hxid⟩ := List.mem_map.mp
      (mem_left_of_sublist_pair _ _ old.id c.id hnodup (hids ▸ hsub))
    have hxold : x = old := hunique x (by simp [hsplit, hx]) hxid
    exact .inl ⟨old, hxold ▸ hx, by simp [hout.kept], hout.key, hlt⟩
  · obtain ⟨x, hx, hxid⟩ := List.mem_map.mp
      (mem_right_of_sublist_pair _ _ old.id c.id hnodup (hids ▸ hsub))
    have hxold : x = old := hunique x (by simp [hsplit, hx]) hxid
    exact .inr ⟨old, hxold ▸ hx, by simp [hout.kept], hout.key, hle⟩

/-- Node `n` submits facts with producer timestamp `t`. -/
def factsAt (t : Instant) (payload : Nat) : CommandReq Nat :=
  ⟨.replaceFacts, "n", true, t, payload⟩

/-- Two commands put one after the other and then taken. -/
def bothThenTaken (t u : Instant) : List (Op Nat) :=
  [.add 1 0 (factsAt t 1), .add 2 0 (factsAt u 2), .remove, .remove]

section Storage

variable {Digest : Type} [DecidableEq Digest]

/-- The factsets hold the versions: their timestamps rounded, their values in the two
columns. -/
def FactsHeld (s : FactStorage.FactStore Digest)
    (held : String → Option (Version FactStorage.FactMap)) : Prop :=
  ∀ certname : String,
    (s.factsets[certname]?.map fun row => (row.producerTimestamp, row.stable ∪ row.volatile)) =
      (held certname).map fun v => (Instant.toTimestamptz v.producerTimestamp, v.payload)

/-- `replace-facts!` is a write to the register of its node. -/
theorem store_factsHeld (D : FactStorage.FactDigests Digest)
    (hD : Function.Injective D.genericIdentity) (s : FactStorage.FactStore Digest)
    (hs : FactStorage.HashesCurrent D s) (held : String → Option (Version FactStorage.FactMap))
    (hheld : FactsHeld s held) (d : FactStorage.FactData) :
    FactsHeld (FactStorage.store D s d)
      (settleAt staleness held (d.certname, ⟨d.producerTimestamp, d.values⟩)) := by
  have hnode := hheld d.certname
  have hother : ∀ row, ∀ certname, certname ≠ d.certname →
      (s.factsets.insert d.certname row)[certname]? = s.factsets[certname]? := by
    intro row certname hc
    rw [Std.ExtTreeMap.getElem?_insert, if_neg]
    exact fun he => hc (Std.LawfulEqOrd.eq_of_compare he).symm
  have hself : ∀ row, (s.factsets.insert d.certname row)[d.certname]? = some row :=
    fun row => Std.ExtTreeMap.getElem?_insert_self
  intro certname
  unfold settleAt FactStorage.store
  obtain ⟨hnone, he⟩ | ⟨row, hrow, hlt, he⟩ | ⟨row, hrow, hlt, he⟩ :=
    FactStorage.replaceFacts_cases D s d
  · rw [he]
    by_cases hc : certname = d.certname
    · subst hc
      have hheldNone : held d.certname = none := by
        rw [hnone] at hnode
        simpa using hnode.symm
      rw [Function.update_self, hheldNone]
      show (Option.map _ (s.factsets.insert d.certname _)[d.certname]?) = _
      rw [hself]
      have hunion : d.values ∪ (∅ : FactStorage.FactMap) = d.values := by
        apply Std.ExtTreeMap.ext_getElem?
        intro fact
        rw [Std.ExtTreeMap.getElem?_union]
        simp
      simp only [settle, Option.map_some, hunion]
    · rw [Function.update_of_ne hc, ← hheld certname]
      exact congrArg _ (hother _ certname hc)
  · -- a stale submission changes neither side
    rw [he, hheld certname]
    by_cases hc : certname = d.certname
    · subst hc
      rw [hrow] at hnode
      obtain ⟨v, hv, hts⟩ := Option.map_eq_some_iff.mp hnode.symm
      have hts : Instant.toTimestamptz v.producerTimestamp = row.producerTimestamp :=
        (Prod.mk.inj hts).1
      rw [Function.update_self, hv, settle, if_pos]
      show d.producerTimestamp < Instant.toTimestamptz v.producerTimestamp
      rwa [hts]
    · rw [Function.update_of_ne hc]
  · rw [he]
    by_cases hc : certname = d.certname
    · subst hc
      rw [hrow] at hnode
      obtain ⟨v, hv, hts⟩ := Option.map_eq_some_iff.mp hnode.symm
      have hts : Instant.toTimestamptz v.producerTimestamp = row.producerTimestamp :=
        (Prod.mk.inj hts).1
      have hunion := FactStorage.factJsonUpdates_union D hD row d.values (hs _ _ hrow)
      rw [Function.update_self, hv, settle, if_neg]
      · show (Option.map _ (s.factsets.insert d.certname _)[d.certname]?) = _
        rw [hself]
        simp only [Option.map_some, hunion]
      · show ¬ d.producerTimestamp < Instant.toTimestamptz v.producerTimestamp
        rwa [hts]
    · rw [Function.update_of_ne hc, ← hheld certname]
      exact congrArg _ (hother _ certname hc)

/-- The catalogs rows hold the versions: their timestamps rounded, their hashes. -/
def CatalogsHeld (B : CatalogStorage.Backend Digest) (s : CatalogStorage.CatalogStore Digest)
    (held : String → Option (Version Catalogs.Catalog)) : Prop :=
  ∀ certname : String,
    ((s.nodes certname).metadata.map fun row => (row.producerTimestamp, row.hash)) =
      (held certname).map fun v => (Instant.toTimestamptz v.producerTimestamp,
        CatalogStorage.catalogSimilarityHash B v.payload)

/-- A `replace-catalog!` that does not fail is a write to the register of its node. -/
theorem replaceCatalog_catalogsHeld (B : CatalogStorage.Backend Digest)
    (s s' : CatalogStorage.CatalogStore Digest)
    (held : String → Option (Version Catalogs.Catalog)) (hheld : CatalogsHeld B s held)
    (c : Catalogs.Catalog) (received : Instant) (status : CatalogStorage.Status Digest)
    (h : CatalogStorage.replaceCatalog B s c received = .ok (s', status)) :
    CatalogsHeld B s' (settleAt staleness held (c.certname, ⟨c.producerTimestamp, c⟩)) := by
  have hnode := hheld c.certname
  -- the stale check is the register's
  have hstale : CatalogStorage.Stale s c ↔ ∃ v, held c.certname = some v ∧
      c.producerTimestamp < Instant.toTimestamptz v.producerTimestamp := by
    constructor
    · rintro ⟨row, hrow, hlt⟩
      rw [Option.mem_def.mp hrow] at hnode
      obtain ⟨v, hv, hpair⟩ := Option.map_eq_some_iff.mp hnode.symm
      exact ⟨v, hv, (Prod.mk.inj hpair).1 ▸ hlt⟩
    · rintro ⟨v, hv, hlt⟩
      rw [hv] at hnode
      obtain ⟨row, hrow, hpair⟩ := Option.map_eq_some_iff.mp hnode
      exact ⟨row, hrow, (Prod.mk.inj hpair).1 ▸ hlt⟩
  intro certname
  unfold settleAt
  obtain ⟨hs, he⟩ | ⟨-, e, -, he⟩ | ⟨hs, node, s'', hinc, hnodes, he⟩ :=
    CatalogStorage.replaceCatalog_cases B s c received
  · rw [he] at h
    cases h
    rw [hheld certname]
    by_cases hc : certname = c.certname
    · subst hc
      obtain ⟨v, hv, hlt⟩ := hstale.mp hs
      rw [Function.update_self, hv, settle, if_pos]
      exact hlt
    · rw [Function.update_of_ne hc]
  · rw [he] at h
    cases h
  · rw [he] at h
    cases h
    rw [hnodes]
    by_cases hc : certname = c.certname
    · subst hc
      obtain ⟨-, hmeta, -⟩ := (CatalogStorage.incorporate_cases B _ c received node).mp hinc
      have hsettle : settle staleness (held c.certname) ⟨c.producerTimestamp, c⟩ =
          some ⟨c.producerTimestamp, c⟩ := by
        cases hv : held c.certname with
        | none => rfl
        | some v => exact if_neg fun hlt => hs (hstale.mpr ⟨v, hv, hlt⟩)
      rw [Function.update_self, Function.update_self, hmeta, hsettle]
      rfl
    · rw [Function.update_of_ne hc, Function.update_of_ne hc]
      exact hheld certname

end Storage

end OpenVoxDB.CommandBuffer
