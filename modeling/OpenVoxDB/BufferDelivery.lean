import Mathlib
import OpenVoxDB.CommandBuffer

/-!
# What the buffer delivers

Whatever is put into a `SortedCommandBuffer` comes out of it once, the smallest
id first, and it comes out marked only where a newer command for the same node
was in the buffer with it. An id may come back after its command has been
returned, as that of a command that is tried again does.
-/

namespace OpenVoxDB.BufferDelivery

open CommandBuffer

variable {Payload : Type}

inductive Op (Payload : Type) where
  | add (c : CommandRef Payload)
  | remove

/-- A buffer with the commands that have been put into it and returned by it. -/
structure Delivery (Payload : Type) where
  buffer : Buffer Payload
  added : List (CommandRef Payload)
  returned : List (CommandRef Payload)

def Delivery.start : Delivery Payload := ⟨Buffer.empty, [], []⟩

/-- A channel never asks an empty buffer for a command. -/
def step (s : Delivery Payload) : Op Payload → Delivery Payload
  | .add c => ⟨s.buffer.add c, s.added ++ [c], s.returned⟩
  | .remove =>
    match s.buffer.remove with
    | none => s
    | some (c, b) => ⟨b, s.added, s.returned ++ [c]⟩

/-- The ids in the buffer stay distinct. -/
def DistinctIds (s : Delivery Payload) : Op Payload → Prop
  | .add c => c.id ∉ ids s.buffer.fifo
  | .remove => True

/-- The command without its mark. -/
def unmark (c : CommandRef Payload) : CommandRef Payload := { c with delete := false }

/-- The command is in the buffer, marked or not. -/
def Held (s : Delivery Payload) (c : CommandRef Payload) : Prop :=
  ∃ x ∈ s.buffer.fifo, unmark x = unmark c

/-- `w` is another replace command for the node of `c`, with a producer timestamp that is at
least as new. -/
structure Supersedes (w c : CommandRef Payload) : Prop where
  other : w.id ≠ c.id
  key : w.key = c.key
  bashed : c.command.bashed = true
  newer : ∃ ts ts', c.producerTs = some ts ∧ w.producerTs = some ts' ∧ ts ≤ ts'

/-- After `ops` the command has been in the buffer since some moment, at which it was put in
with its mark or a command that supersedes it was in the buffer as well. -/
def Justified (ops : List (Op Payload)) (c : CommandRef Payload) : Prop :=
  ∃ before since, ops = before ++ since ∧
    (∀ later, later <+: since → Held (run step Delivery.start (before ++ later)) c) ∧
    ((∃ earlier x, before = earlier ++ [.add x] ∧ x.delete = true ∧ unmark x = unmark c) ∨
      ∃ w ∈ (run step Delivery.start before).buffer.fifo, Supersedes w c)

/-- What the buffer owes its users after `ops`. -/
structure Delivers (ops : List (Op Payload)) (s : Delivery Payload) : Prop where
  /-- Each command put in has been returned once, or is in the buffer once. -/
  once : ((s.returned ++ s.buffer.fifo).map unmark).Perm (s.added.map unmark)
  count : s.buffer.fifo.length = s.added.length - s.returned.length
  /-- The next command returned is the one with the smallest id. -/
  smallest : ∀ c b, s.buffer.remove = some (c, b) →
    c ∈ s.buffer.fifo ∧ ∀ x ∈ s.buffer.fifo, x ≠ c → c.id < x.id
  justified : ∀ c b, s.buffer.remove = some (c, b) → c.delete = true → Justified ops c
  /-- Once the buffer has been emptied, each command has been returned once. -/
  drained : ((run step s (List.replicate s.buffer.fifo.length .remove)).returned.map unmark).Perm
    (s.added.map unmark)

/-! ## One step -/

/-- What is in the map is compared with later commands. -/
def Compared (c : CommandRef Payload) : Prop :=
  c.command.bashed = true ∧ c.producerTs.isSome = true

theorem unmark_mark (c : CommandRef Payload) : unmark { c with delete := true } = unmark c := rfl

/-- What `add!*` does to the queue. -/
inductive Puts (fifo : List (CommandRef Payload)) (c : CommandRef Payload)
    (fifo' : List (CommandRef Payload)) : Prop where
  | plain (h : fifo'.Perm (c :: fifo))
  | itself (w : CommandRef Payload) (hw : w ∈ fifo) (hsupersedes : Supersedes w c)
      (h : fifo'.Perm ({ c with delete := true } :: fifo))
  | older (old : CommandRef Payload) (rest : List (CommandRef Payload))
      (hold : fifo.Perm (old :: rest)) (hsupersedes : Supersedes c old)
      (h : fifo'.Perm (c :: { old with delete := true } :: rest))

theorem puts_add (b : Buffer Payload) (hb : Consistent Compared b) (c : CommandRef Payload)
    (hc : c.id ∉ ids b.fifo) : Puts b.fifo c (b.add c).fifo := by
  have hplain := put_perm_of_new c b.fifo hc
  cases hbashed : c.command.bashed with
  | false =>
    have hadd : b.add c = { b with fifo := put c b.fifo } := by
      unfold Buffer.add
      cases c.producerTs <;> simp [hbashed]
    rw [hadd]
    exact .plain hplain
  | true =>
    obtain ⟨-, hadd⟩ | ⟨-, -, hadd⟩ | ⟨ts, old, hts, hold, hcompare⟩ := add_cases b c hbashed
    · rw [hadd]
      exact .plain hplain
    · rw [hadd]
      exact .plain hplain
    · obtain ⟨hmem, hkey, holdbashed, hsome⟩ := hb.tracked c.key old hold
      have hid : old.id ≠ c.id := fun he => hc (he ▸ List.mem_map_of_mem hmem)
      obtain ⟨oldTs, holdTs⟩ := Option.isSome_iff_exists.mp hsome
      obtain ⟨oldTs', holdTs', hlt, hadd⟩ | ⟨hnot, hadd⟩ := hcompare
      · have hids := ids_put_of_mem { old with delete := true } old b.fifo hb.sorted rfl hmem
        obtain ⟨rest, hfifo, hput⟩ :=
          put_perm_of_mem { old with delete := true } old b.fifo hb.sorted rfl hmem
        have hperm := (put_perm_of_new c _ (hids.symm ▸ hc)).trans (hput.cons c)
        rw [hadd]
        apply Puts.older old rest hfifo _ hperm
        exact ⟨hid.symm, hkey.symm, holdbashed, oldTs', ts, holdTs', hts, Int.le_of_lt hlt⟩
      · rw [hadd]
        apply Puts.itself old hmem _ (put_perm_of_new { c with delete := true } b.fifo hc)
        exact ⟨hid, hkey, hbashed, ts, oldTs, hts, holdTs, Int.not_lt.mp (hnot oldTs holdTs)⟩

theorem Puts.unmarked {fifo fifo' : List (CommandRef Payload)} {c : CommandRef Payload}
    (h : Puts fifo c fifo') : (fifo'.map unmark).Perm (unmark c :: fifo.map unmark) := by
  cases h with
  | plain h => exact h.map unmark
  | itself w hw hsupersedes h => exact h.map unmark
  | older old rest hold hsupersedes h =>
    have hrest := (hold.map unmark).symm
    exact (h.map unmark).trans (hrest.cons (unmark c))

/-- What `add!*` leaves in the queue, and why it is marked. -/
theorem Puts.cases_mem {fifo fifo' : List (CommandRef Payload)} {c x : CommandRef Payload}
    (h : Puts fifo c fifo') (hx : x ∈ fifo') :
    x ∈ fifo ∨ x = c ∨ ∃ w ∈ fifo', Supersedes w x := by
  cases h with
  | plain h =>
    rcases List.mem_cons.mp (h.mem_iff.mp hx) with rfl | hx
    · exact .inr (.inl rfl)
    · exact .inl hx
  | itself w hw hsupersedes h =>
    rcases List.mem_cons.mp (h.mem_iff.mp hx) with rfl | hx
    · have hkept : w ∈ fifo' := h.mem_iff.mpr (List.mem_cons_of_mem _ hw)
      exact .inr (.inr ⟨w, hkept, ⟨hsupersedes.other, hsupersedes.key, hsupersedes.bashed,
        hsupersedes.newer⟩⟩)
    · exact .inl hx
  | older old rest hold hsupersedes h =>
    have hc : c ∈ fifo' := h.mem_iff.mpr List.mem_cons_self
    rcases List.mem_cons.mp (h.mem_iff.mp hx) with rfl | hx
    · exact .inr (.inl rfl)
    · rcases List.mem_cons.mp hx with rfl | hx
      · exact .inr (.inr ⟨c, hc, ⟨hsupersedes.other, hsupersedes.key, hsupersedes.bashed,
          hsupersedes.newer⟩⟩)
      · exact .inl (hold.mem_iff.mpr (List.mem_cons_of_mem _ hx))

/-! ## Runs -/

theorem held_of_mem {s : Delivery Payload} {c : CommandRef Payload} (h : c ∈ s.buffer.fifo) :
    Held s c := ⟨c, h, rfl⟩

/-- A command that stays in the buffer keeps the reason for its mark. -/
theorem Justified.extend {ops : List (Op Payload)} {c : CommandRef Payload}
    (h : Justified ops c) (op : Op Payload)
    (hheld : Held (run step Delivery.start (ops ++ [op])) c) : Justified (ops ++ [op]) c := by
  obtain ⟨before, since, rfl, hstays, hreason⟩ := h
  refine ⟨before, since ++ [op], List.append_assoc _ _ _, ?_, hreason⟩
  intro later hlater
  rcases List.prefix_concat_iff.mp hlater with rfl | hlater
  · rw [← List.append_assoc]
    exact hheld
  · exact hstays later hlater

/-- A command that is justified at once. -/
theorem justified_now {ops : List (Op Payload)} {c : CommandRef Payload}
    (hheld : Held (run step Delivery.start ops) c)
    (hreason : (∃ earlier x, ops = earlier ++ [.add x] ∧ x.delete = true ∧ unmark x = unmark c) ∨
      ∃ w ∈ (run step Delivery.start ops).buffer.fifo, Supersedes w c) : Justified ops c := by
  refine ⟨ops, [], (List.append_nil ops).symm, ?_, hreason⟩
  intro later hlater
  rw [List.prefix_nil.mp hlater, List.append_nil]
  exact hheld

/-- What holds after `ops`. -/
structure Inv (ops : List (Op Payload)) (s : Delivery Payload) : Prop where
  ran : s = run step Delivery.start ops
  consistent : Consistent Compared s.buffer
  once : ((s.returned ++ s.buffer.fifo).map unmark).Perm (s.added.map unmark)
  marked : ∀ x ∈ s.buffer.fifo, x.delete = true → Justified ops x

theorem inv_start : Inv [] (Delivery.start : Delivery Payload) where
  ran := rfl
  consistent := consistent_empty Compared
  once := List.Perm.refl _
  marked := fun x hx => by cases hx

theorem inv_step (ops : List (Op Payload)) (s : Delivery Payload) (op : Op Payload)
    (hs : Inv ops s) (hop : DistinctIds s op) : Inv (ops ++ [op]) (step s op) := by
  have hran : step s op = run step Delivery.start (ops ++ [op]) := by
    rw [run_append, ← hs.ran]
    rfl
  cases op with
  | add c =>
    have hputs := puts_add s.buffer hs.consistent c hop
    have hconsistent := consistent_add Compared s.buffer hs.consistent c hop fun hb hts => ⟨hb, hts⟩
    refine ⟨hran, hconsistent, ?_, ?_⟩
    · simp only [step, List.map_append, List.map_cons, List.map_nil]
      have honce := hs.once
      rw [List.map_append] at honce
      have hput := hputs.unmarked.append_left (s.returned.map unmark)
      apply hput.trans
      apply List.perm_middle.trans
      apply (honce.cons (unmark c)).trans
      exact (List.perm_append_singleton (unmark c) _).symm
    · intro x hx hdelete
      have hheld : Held (run step Delivery.start (ops ++ [.add c])) x :=
        hran ▸ held_of_mem hx
      rcases hputs.cases_mem hx with hold | rfl | ⟨w, hw, hsupersedes⟩
      · exact (hs.marked x hold hdelete).extend _ hheld
      · exact justified_now hheld (.inl ⟨ops, x, rfl, hdelete, rfl⟩)
      · exact justified_now hheld (.inr ⟨w, hran ▸ hw, hsupersedes⟩)
  | remove =>
    cases hremove : s.buffer.remove with
    | none =>
      have hstep : step s .remove = s := by simp [step, hremove]
      rw [hstep] at hran ⊢
      refine ⟨hran, hs.consistent, hs.once, ?_⟩
      intro x hx hdelete
      exact (hs.marked x hx hdelete).extend _ (hran ▸ held_of_mem hx)
    | some taken =>
      obtain ⟨c, b⟩ := taken
      obtain ⟨hfifo, hconsistent⟩ :=
        consistent_remove Compared (fun x hx => hx.1) s.buffer b hs.consistent c hremove
      have hstep : step s .remove = ⟨b, s.added, s.returned ++ [c]⟩ := by simp [step, hremove]
      rw [hstep] at hran ⊢
      refine ⟨hran, hconsistent, ?_, ?_⟩
      · have honce := hs.once
        rw [hfifo] at honce
        simpa using honce
      · intro x hx hdelete
        have hold : x ∈ s.buffer.fifo := hfifo ▸ List.mem_cons_of_mem c hx
        exact (hs.marked x hold hdelete).extend _ (hran ▸ held_of_mem hx)

/-- Taking as many commands as there are empties the buffer. -/
theorem run_removes (s : Delivery Payload) :
    (run step s (List.replicate s.buffer.fifo.length .remove)).added = s.added ∧
      (run step s (List.replicate s.buffer.fifo.length .remove)).returned =
        s.returned ++ s.buffer.fifo := by
  obtain ⟨⟨fifo, certnames⟩, added, returned⟩ := s
  induction fifo generalizing certnames returned with
  | nil => simp
  | cons c rest ih =>
    have hnext := ih (returned ++ [c])
      (if c.command.bashed then Function.update certnames c.key none else certnames)
    simp only [List.length_cons, List.replicate_succ, run_cons]
    simpa [step, Buffer.remove] using hnext

theorem Inv.delivers {ops : List (Op Payload)} {s : Delivery Payload} (hs : Inv ops s) :
    Delivers ops s := by
  have hremove : ∀ c b, s.buffer.remove = some (c, b) → s.buffer.fifo = c :: b.fifo := by
    intro c b h
    exact (consistent_remove Compared (fun x hx => hx.1) s.buffer b hs.consistent c h).1
  refine ⟨hs.once, ?_, ?_, ?_, ?_⟩
  · have hlength := hs.once.length_eq
    simp only [List.length_map, List.length_append] at hlength
    omega
  · intro c b h
    have hfifo := hremove c b h
    have hsorted := hs.consistent.sorted
    rw [hfifo] at hsorted ⊢
    refine ⟨List.mem_cons_self, ?_⟩
    intro x hx hne
    have hrest := (List.mem_cons.mp hx).resolve_left hne
    exact (List.pairwise_cons.mp hsorted).1 x.id (List.mem_map_of_mem hrest)
  · intro c b h hdelete
    exact hs.marked c (hremove c b h ▸ List.mem_cons_self) hdelete
  · rw [(run_removes s).2]
    exact hs.once

/-- Every buffer delivers, whatever is put into it and taken from it. -/
theorem delivers_along_run (ops : List (Op Payload))
    (h : Always step DistinctIds (Delivery.start : Delivery Payload) ops) :
    Delivers ops (run step Delivery.start ops) := by
  have hinv := run_history (I := Inv) (fun done s op hs hop => inv_step done s op hs hop) ops []
    Delivery.start inv_start h
  exact hinv.delivers

/-- A catalog of the node `a`. -/
def catalogAt (id : Nat) (seconds : Int) : CommandRef Unit :=
  storeCommand id 0 ⟨.replaceCatalog, "a", true, seconds * 1000000000, ()⟩

/-- Two catalogs of one node, the second of them newer, and a command for each. -/
theorem delivers_along_run_catalogs :
    Delivers [.add (catalogAt 1 1), .add (catalogAt 2 2), .remove]
      (run step Delivery.start [.add (catalogAt 1 1), .add (catalogAt 2 2), .remove]) := by
  apply delivers_along_run
  have hfirst : (catalogAt 1 1).id ∉ ids (Delivery.start : Delivery Unit).buffer.fifo := by decide
  have hsecond :
      (catalogAt 2 2).id ∉ ids (step Delivery.start (.add (catalogAt 1 1))).buffer.fifo := by decide
  exact ⟨hfirst, hsecond, trivial, trivial⟩

end OpenVoxDB.BufferDelivery
