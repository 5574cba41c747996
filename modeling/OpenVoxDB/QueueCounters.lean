import OpenVoxDB.CommandBuffer
import OpenVoxDB.CommandCallbacks

/-!
# The counters of the queue

`:depth` counts the commands that have been enqueued and not disposed of,
`:invalidated` those of them that are marked `:delete?`. The service adds
commands to the buffer, handlers take them and process them, and a command
that fails comes back to the buffer after its delay.
-/

namespace OpenVoxDB.QueueCounters

open CommandBuffer
open CommandProcessing (Attempt CmdRef Config Env Effect processMessage FailsForGood)

/-- What a command ref carries besides what the buffer looks at. -/
structure Entry where
  version : Nat
  attempts : List Attempt

abbrev Ref := CommandRef Entry

/-- The command and version that a counter is kept for. -/
abbrev Kind := CommandType × Nat

def kind (c : Ref) : Kind := (c.command, c.payload.version)

/-- A counter: the global one, and one for each command and version. -/
abbrev Counter := Option Kind → Int

/-- `update-counter!` -/
def updateCounter (k : Kind) (n : Int) (counter : Counter) : Counter :=
  fun key => if key.all (· = k) then counter key + n else counter key

def commandName : CommandType → String
  | .replaceCatalog => "replace catalog"
  | .replaceFacts => "replace facts"
  | .storeReport => "store report"
  | .deactivateNode => "deactivate node"
  | .configureExpiration => "configure expiration"
  | .replaceCatalogInputs => "replace catalog inputs"

/-- The ref as `process-message` sees it. -/
def cmdRef (c : Ref) : CmdRef :=
  ⟨c.id, commandName c.command, c.payload.version, c.certname, c.delete, c.payload.attempts⟩

/-- The command that `add!*` marks, as it was before: what `delete-update-fn` is called for. -/
def marks (b : Buffer Entry) (c : Ref) : Option Ref :=
  match c.producerTs with
  | none => none
  | some producerTs =>
    if c.command.bashed then
      match b.certnames c.key with
      | none => none
      | some old => if old.producerTs.any fun oldTs => oldTs < producerTs then some old else some c
    else none

/-- The service: its buffer, the commands that handlers have taken, those that wait for
another attempt, and the counters. -/
structure Service where
  buffer : Buffer Entry
  taken : List Ref
  delayed : List Ref
  depth : Counter
  invalidated : Counter

def Service.empty : Service := ⟨Buffer.empty, [], [], fun _ => 0, fun _ => 0⟩

/-- The commands enqueued and not yet acknowledged, discarded or found missing. -/
def Service.live (s : Service) : List Ref := s.buffer.fifo ++ (s.taken ++ s.delayed)

inductive Event where
  /-- A command is stored under an id of its own, or loaded from the queue's directory. -/
  | enqueue (id : Nat) (received : Instant) (req : CommandReq Entry)
  /-- A handler takes the next command. -/
  | take
  /-- A handler processes one of the commands taken. -/
  | process (i : Nat) (env : Env)
  /-- A delayed command is enqueued again. -/
  | revive (i : Nat)

/-- Put a command into the buffer, with the update of `:invalidated`. -/
def Service.add (s : Service) (c : Ref) : Service :=
  { s with
    buffer := s.buffer.add c
    invalidated := ((marks s.buffer c).elim s.invalidated) fun marked =>
      updateCounter (kind marked) 1 s.invalidated }

/-- The counters after a call of `process-message` for a command. -/
def Service.dispose (s : Service) (c : Ref) : Effect → Service
  | .acknowledged =>
    -- only `process-delete-cmd` looks at the mark
    { s with
      depth := updateCounter (kind c) (-1) s.depth
      invalidated := if c.delete then updateCounter (kind c) (-1) s.invalidated
        else s.invalidated }
  | .missing => { s with depth := updateCounter (kind c) (-1) s.depth }
  | .delayed c' =>
    { s with delayed := s.delayed ++ [{ c with payload := { c.payload with attempts := c'.attempts } }] }
  | .discarded _ => { s with depth := updateCounter (kind c) (-1) s.depth }

/-- The ref of a command that is stored, before any attempt. -/
def newRef (id : Nat) (received : Instant) (req : CommandReq Entry) : Ref :=
  storeCommand id received { req with payload := { req.payload with attempts := [] } }

/-- `enqueue-command`: the counter follows the put. -/
def Service.enqueue (s : Service) (c : Ref) : Service :=
  { s.add c with depth := updateCounter (kind c) 1 s.depth }

def Service.dropTaken (s : Service) (i : Nat) : Service :=
  { s with taken := s.taken.eraseIdx i }

def Service.dropDelayed (s : Service) (i : Nat) : Service :=
  { s with delayed := s.delayed.eraseIdx i }

def step (cfg : Config) (s : Service) : Event → Service
  | .enqueue id received req =>
    if (ids s.live).contains id then s else s.enqueue (newRef id received req)
  | .take =>
    match s.buffer.remove with
    | none => s
    | some (c, b) => { s with buffer := b, taken := s.taken ++ [c] }
  | .process i env =>
    match s.taken[i]? with
    | none => s
    | some c => (s.dropTaken i).dispose c (processMessage cfg (cmdRef c) env).1
  | .revive i =>
    match s.delayed[i]? with
    | none => s
    | some c => (s.dropDelayed i).add c

/-- The live commands of a kind, or of any kind. -/
def ofKind (key : Option Kind) (c : Ref) : Bool := key.all (· = kind c)

/-- Those of them that are marked. -/
def markedOfKind (key : Option Kind) (c : Ref) : Bool := c.delete && ofKind key c

def DepthAgrees (s : Service) : Prop := ∀ key, s.depth key = (s.live.countP (ofKind key) : Nat)

def InvalidatedAgrees (s : Service) : Prop :=
  ∀ key, s.invalidated key = (s.live.countP (markedOfKind key) : Nat)

/-- The counters say what is in the queue. -/
def CountersAgree (s : Service) : Prop := DepthAgrees s ∧ InvalidatedAgrees s

/-- No command is marked twice, and a marked command that ends is acknowledged. -/
def MarkedOnce (cfg : Config) (s : Service) : Event → Prop
  | .enqueue id received req => (ids s.live).contains id = false →
      ∀ c ∈ marks s.buffer (newRef id received req), c.delete = false
  | .revive i => ∀ c ∈ s.delayed[i]?, ∀ c' ∈ marks s.buffer c, c'.delete = false
  | .process i env => ∀ c ∈ s.taken[i]?, c.delete = true →
      env.load ≠ .ok false ∧ ¬ FailsForGood cfg (cmdRef c) env
  | .take => True

/-- The ref with the mark that `add!*` puts on it. -/
def marked (c : Ref) : Ref := { c with delete := true }

/-- What holds between the steps: ids are unique, the buffer is sorted, and what
`certnames-map` keeps is in it. -/
structure Inv (s : Service) : Prop where
  nodup : (ids s.live).Nodup
  sorted : (ids s.buffer.fifo).Pairwise (· < ·)
  tracked : ∀ k c, s.buffer.certnames k = some c →
    c ∈ s.buffer.fifo ∧ c.key = k ∧ c.command.bashed = true

theorem inv_empty : Inv Service.empty where
  nodup := List.nodup_nil
  sorted := List.Pairwise.nil
  tracked := fun _ _ h => absurd h.symm (Option.some_ne_none _)

/-- What `add!*` does to the commands, by what it marks. -/
inductive Added (fifo : List Ref) (c : Ref) (fifo' : List Ref) : Option Ref → Prop where
  | plain (h : fifo'.Perm (c :: fifo)) : Added fifo c fifo' none
  | itself (h : fifo'.Perm (marked c :: fifo)) : Added fifo c fifo' (some c)
  | older (old : Ref) (rest : List Ref) (hold : fifo.Perm (old :: rest))
      (h : fifo'.Perm (c :: marked old :: rest)) : Added fifo c fifo' (some old)

theorem added_add (b : Buffer Entry) (c : Ref) (hc : c.id ∉ ids b.fifo)
    (hsorted : (ids b.fifo).Pairwise (· < ·))
    (htracked : ∀ k x, b.certnames k = some x → x ∈ b.fifo ∧ x.key = k) :
    Added b.fifo c (b.add c).fifo (marks b c) := by
  have hplain := Added.plain (put_perm_of_new c b.fifo hc)
  have hitself := Added.itself (put_perm_of_new (marked c) b.fifo hc)
  cases hts : c.producerTs with
  | none => simpa [Buffer.add, marks, hts] using hplain
  | some producerTs =>
    cases hb : c.command.bashed with
    | false => simpa [Buffer.add, marks, hts, hb] using hplain
    | true =>
      cases hold : b.certnames c.key with
      | none => simpa [Buffer.add, marks, hts, hb, hold] using hplain
      | some old =>
        by_cases hlt : (old.producerTs.any fun oldTs => oldTs < producerTs) = true
        · have hmem := (htracked c.key old hold).1
          have hids := ids_put_of_mem (marked old) old b.fifo hsorted rfl hmem
          obtain ⟨rest, hfifo, hput⟩ := put_perm_of_mem (marked old) old b.fifo hsorted rfl hmem
          have holder := (put_perm_of_new c _ (hids.symm ▸ hc)).trans (hput.cons c)
          simp only [Buffer.add, marks, hts, hb, hold, hlt, if_true]
          exact .older old rest hfifo holder
        · simpa [Buffer.add, marks, hts, hb, hold, hlt, marked] using hitself

theorem Inv.consistent {s : Service} (hs : Inv s) :
    Consistent (fun c => c.command.bashed = true) s.buffer :=
  ⟨hs.sorted, hs.tracked⟩

theorem Added.append {fifo fifo' : List Ref} {c : Ref} {m : Option Ref}
    (h : Added fifo c fifo' m) (others : List Ref) :
    Added (fifo ++ others) c (fifo' ++ others) m := by
  cases h with
  | plain h => exact .plain (h.append_right others)
  | itself h => exact .itself (h.append_right others)
  | older old rest hold h =>
    exact .older old (rest ++ others) (hold.append_right others) (h.append_right others)

/-- The commands' ids after `add!*`. -/
theorem Added.ids_perm {live live' : List Ref} {c : Ref} {m : Option Ref}
    (h : Added live c live' m) : (ids live').Perm (c.id :: ids live) := by
  cases h with
  | plain h => exact h.map _
  | itself h => exact h.map _
  | older old rest hold h => exact (h.map _).trans ((hold.map CommandRef.id).symm.cons c.id)

@[simp] theorem ofKind_marked (key : Option Kind) (c : Ref) :
    ofKind key (marked c) = ofKind key c := rfl

@[simp] theorem markedOfKind_marked (key : Option Kind) (c : Ref) :
    markedOfKind key (marked c) = ofKind key c := rfl

theorem Added.count_ofKind {live live' : List Ref} {c : Ref} {m : Option Ref}
    (h : Added live c live' m) (key : Option Kind) :
    live'.countP (ofKind key) = live.countP (ofKind key) + if ofKind key c then 1 else 0 := by
  cases h with
  | plain h => rw [h.countP_eq, List.countP_cons]
  | itself h => rw [h.countP_eq, List.countP_cons, ofKind_marked]
  | older old rest hold h =>
    rw [h.countP_eq, hold.countP_eq, List.countP_cons, List.countP_cons, List.countP_cons,
      ofKind_marked]

/-- The marked commands that `add!*` adds: the one put in if it is marked, and the one it marks
if that is not. -/
theorem Added.count_marked {live live' : List Ref} {c : Ref} {m : Option Ref}
    (h : Added live c live' m) (key : Option Kind) :
    live'.countP (markedOfKind key) = live.countP (markedOfKind key) +
      (if markedOfKind key c then 1 else 0) +
      m.elim 0 fun x => if ofKind key x && !x.delete then 1 else 0 := by
  cases h with
  | plain h => rw [h.countP_eq, List.countP_cons, Option.elim_none, Nat.add_zero]
  | itself h =>
    rw [h.countP_eq, List.countP_cons, Option.elim_some, markedOfKind_marked]
    cases hd : c.delete <;> cases hk : ofKind key c <;> simp [markedOfKind, hd, hk]
  | older old rest hold h =>
    rw [h.countP_eq, hold.countP_eq, List.countP_cons, List.countP_cons, List.countP_cons,
      Option.elim_some, markedOfKind_marked]
    cases hd : old.delete <;> cases hk : ofKind key old <;> 
      (simp [markedOfKind, hd, hk]; try omega)

/-- A counter that is updated for a command moves for the keys of its kind. -/
theorem updateCounter_kind (c : Ref) (n : Int) (counter : Counter) (key : Option Kind) :
    updateCounter (kind c) n counter key = counter key + if ofKind key c then n else 0 := by
  unfold updateCounter ofKind
  cases key.all (· = kind c) <;> simp

theorem added_live (s : Service) (hs : Inv s) (c : Ref) (hc : c.id ∉ ids s.live) :
    Added s.live c (s.add c).live (marks s.buffer c) := by
  have hfifo : c.id ∉ ids s.buffer.fifo := fun hmem => hc (by
    rw [Service.live, ids_append]
    exact List.mem_append_left _ hmem)
  have hadded := added_add s.buffer c hfifo hs.sorted fun k x hx =>
    ⟨(hs.tracked k x hx).1, (hs.tracked k x hx).2.1⟩
  exact hadded.append _

theorem inv_add (s : Service) (hs : Inv s) (c : Ref) (hc : c.id ∉ ids s.live) :
    Inv (s.add c) := by
  have hfifo : c.id ∉ ids s.buffer.fifo := fun hmem => hc (by
    rw [Service.live, ids_append]
    exact List.mem_append_left _ hmem)
  have hconsistent := consistent_add _ s.buffer hs.consistent c hfifo fun hbashed _ => hbashed
  refine ⟨?_, hconsistent.sorted, hconsistent.tracked⟩
  rw [(added_live s hs c hc).ids_perm.nodup_iff]
  exact List.nodup_cons.mpr ⟨hc, hs.nodup⟩

/-- The `:invalidated` counter is right after a command has been added, when it was right with
the command, just where `add!*` marks no command that is marked. -/
theorem invalidatedAgrees_add_iff (s : Service) (hs : Inv s) (c : Ref) (hc : c.id ∉ ids s.live)
    (h : ∀ key, s.invalidated key =
      (s.live.countP (markedOfKind key) + if markedOfKind key c then 1 else 0 : Nat)) :
    InvalidatedAgrees (s.add c) ↔ ∀ c' ∈ marks s.buffer c, c'.delete = false := by
  have hcount := fun key => (added_live s hs c hc).count_marked key
  unfold InvalidatedAgrees
  simp only [hcount]
  cases hm : marks s.buffer c with
  | none =>
    refine iff_of_true (fun key => ?_) (by simp)
    simp [Service.add, hm, h key]
  | some m =>
    have hinvalidated : ∀ key, (s.add c).invalidated key =
        s.invalidated key + if ofKind key m then 1 else 0 := fun key => by
      simp [Service.add, hm, updateCounter_kind]
    simp only [hinvalidated, h, Option.elim_some, Option.mem_some, forall_eq']
    constructor
    · intro hagree
      have hone := hagree none
      cases hd : m.delete with
      | false => rfl
      | true => simp [ofKind, hd] at hone
    · intro hd key
      cases ofKind key m <;> simp [hd]

theorem perm_eraseIdx (xs : List Ref) (i : Nat) (c : Ref) (h : xs[i]? = some c) :
    xs.Perm (c :: xs.eraseIdx i) := by
  obtain ⟨hlt, rfl⟩ := List.getElem?_eq_some_iff.mp h
  exact (List.getElem_cons_eraseIdx_perm hlt).symm

/-- A handler's commands are live, and so are those that wait. -/
theorem live_taken (s : Service) (i : Nat) (c : Ref) (h : s.taken[i]? = some c) :
    s.live.Perm (c :: (s.dropTaken i).live) := by
  have htaken := ((perm_eraseIdx s.taken i c h).append_right s.delayed).append_left s.buffer.fifo
  exact htaken.trans List.perm_middle

theorem live_delayed (s : Service) (i : Nat) (c : Ref) (h : s.delayed[i]? = some c) :
    s.live.Perm (c :: (s.dropDelayed i).live) := by
  have hdelayed := ((perm_eraseIdx s.delayed i c h).append_left s.taken).append_left s.buffer.fifo
  refine hdelayed.trans ?_
  rw [← List.append_assoc]
  exact List.perm_middle.trans (by rw [List.append_assoc]; exact List.Perm.refl _)

/-- An invariant of the buffer and of the ids survives when a command goes. -/
theorem inv_of_perm_cons (s s' : Service) (c : Ref) (hs : Inv s)
    (hbuffer : s'.buffer = s.buffer) (h : s.live.Perm (c :: s'.live)) :
    Inv s' ∧ c.id ∉ ids s'.live := by
  have hnodup := (h.map CommandRef.id).nodup_iff.mp hs.nodup
  obtain ⟨hc, hrest⟩ := List.nodup_cons.mp hnodup
  exact ⟨⟨hrest, hbuffer ▸ hs.sorted, hbuffer ▸ hs.tracked⟩, hc⟩

/-- What a step does when it hands a command on, from one place to another. -/
theorem take_cases (cfg : Config) (s : Service) (hs : Inv s) :
    (step cfg s .take).live.Perm s.live ∧ (step cfg s .take).depth = s.depth ∧
      (step cfg s .take).invalidated = s.invalidated ∧ Inv (step cfg s .take) := by
  cases hremove : s.buffer.remove with
  | none =>
    have hstep : step cfg s .take = s := by simp [step, hremove]
    rw [hstep]
    exact ⟨List.Perm.refl _, rfl, rfl, hs⟩
  | some taken =>
    obtain ⟨c, b⟩ := taken
    obtain ⟨hfifo, hconsistent⟩ := consistent_remove _ (fun _ h => h) s.buffer b hs.consistent c
      hremove
    have hstep : step cfg s .take = { s with buffer := b, taken := s.taken ++ [c] } := by
      simp [step, hremove]
    have hperm : (step cfg s .take).live.Perm s.live := by
      rw [hstep, Service.live, Service.live, hfifo]
      calc b.fifo ++ (s.taken ++ [c] ++ s.delayed)
          = b.fifo ++ s.taken ++ c :: s.delayed := by simp
        _ |>.Perm (c :: (b.fifo ++ s.taken ++ s.delayed)) := List.perm_middle
        _ = c :: b.fifo ++ (s.taken ++ s.delayed) := by simp
    refine ⟨hperm, by rw [hstep], by rw [hstep], ?_⟩
    refine ⟨(hperm.map CommandRef.id).nodup_iff.mpr hs.nodup, ?_, ?_⟩
    · rw [hstep]
      exact hconsistent.sorted
    · rw [hstep]
      exact hconsistent.tracked

/-- What a call of `process-message` leaves of a command: nothing, or the command itself with
another attempt. -/
inductive Disposed (s : Service) (c : Ref) : Effect → Prop where
  | acknowledged (hlive : (s.dispose c .acknowledged).live = s.live)
      (hdepth : (s.dispose c .acknowledged).depth = updateCounter (kind c) (-1) s.depth)
      (hmark : (s.dispose c .acknowledged).invalidated =
        if c.delete then updateCounter (kind c) (-1) s.invalidated else s.invalidated) :
      Disposed s c .acknowledged
  | lost (effect : Effect) (hlive : (s.dispose c effect).live = s.live)
      (hdepth : (s.dispose c effect).depth = updateCounter (kind c) (-1) s.depth)
      (hmark : (s.dispose c effect).invalidated = s.invalidated)
      (hlost : effect = .missing ∨ ∃ c', effect = .discarded c') : Disposed s c effect
  | waits (c' : CmdRef) (again : Ref) (hid : again.id = c.id) (hkind : kind again = kind c)
      (hdelete : again.delete = c.delete)
      (hlive : (s.dispose c (.delayed c')).live.Perm (again :: s.live))
      (hdepth : (s.dispose c (.delayed c')).depth = s.depth)
      (hmark : (s.dispose c (.delayed c')).invalidated = s.invalidated) :
      Disposed s c (.delayed c')

theorem disposed (s : Service) (c : Ref) (effect : Effect) : Disposed s c effect := by
  cases effect with
  | acknowledged => exact .acknowledged rfl rfl rfl
  | missing => exact .lost _ rfl rfl rfl (.inl rfl)
  | discarded c' => exact .lost _ rfl rfl rfl (.inr ⟨c', rfl⟩)
  | delayed c' =>
    refine .waits c' { c with payload := { c.payload with attempts := c'.attempts } } rfl rfl rfl
      ?_ rfl rfl
    rw [Service.live, Service.dispose, Service.live, ← List.append_assoc, ← List.append_assoc,
      ← List.append_assoc]
    exact List.perm_append_singleton _ _

@[simp] theorem dispose_buffer (s : Service) (c : Ref) (effect : Effect) :
    (s.dispose c effect).buffer = s.buffer := by
  cases effect <;> rfl

theorem inv_dispose (s : Service) (c : Ref) (effect : Effect) (hs : Inv s)
    (hc : c.id ∉ ids s.live) : Inv (s.dispose c effect) := by
  have hnodup : (ids (s.dispose c effect).live).Nodup := by
    cases disposed s c effect with
    | acknowledged hlive => exact hlive ▸ hs.nodup
    | lost _ hlive => exact hlive ▸ hs.nodup
    | waits c' again hid _ _ hlive =>
      rw [(hlive.map CommandRef.id).nodup_iff, List.map_cons, hid]
      exact List.nodup_cons.mpr ⟨hc, hs.nodup⟩
  refine ⟨hnodup, ?_, ?_⟩
  · rw [dispose_buffer]
    exact hs.sorted
  · rw [dispose_buffer]
    exact hs.tracked

@[simp] theorem dropDelayed_buffer (s : Service) (i : Nat) :
    (s.dropDelayed i).buffer = s.buffer := rfl

/-- Everything a step can do. -/
inductive Stepped (cfg : Config) (s : Service) : Event → Service → Prop where
  | idle (e : Event) (hok : MarkedOnce cfg s e) : Stepped cfg s e s
  | taken (s' : Service) (hlive : s'.live.Perm s.live) (hdepth : s'.depth = s.depth)
      (hmark : s'.invalidated = s.invalidated) (hinv : Inv s') : Stepped cfg s .take s'
  | enqueued (id : Nat) (received : Instant) (req : CommandReq Entry)
      (hnew : id ∉ ids s.live) :
      Stepped cfg s (.enqueue id received req) (s.enqueue (newRef id received req))
  | processed (i : Nat) (env : Env) (c : Ref) (htaken : s.taken[i]? = some c) :
      Stepped cfg s (.process i env)
        ((s.dropTaken i).dispose c (processMessage cfg (cmdRef c) env).1)
  | revived (i : Nat) (c : Ref) (hdelayed : s.delayed[i]? = some c) :
      Stepped cfg s (.revive i) ((s.dropDelayed i).add c)

theorem stepped (cfg : Config) (s : Service) (hs : Inv s) (e : Event) :
    Stepped cfg s e (step cfg s e) := by
  cases e with
  | take =>
    obtain ⟨hlive, hdepth, hmark, hinv⟩ := take_cases cfg s hs
    exact .taken _ hlive hdepth hmark hinv
  | enqueue id received req =>
    by_cases hid : (ids s.live).contains id = true
    · rw [step, if_pos hid]
      exact .idle _ fun hnew => absurd (hid.symm.trans hnew) Bool.noConfusion
    · rw [step, if_neg hid]
      exact .enqueued id received req (by simpa using hid)
  | process i env =>
    cases h : s.taken[i]? with
    | none =>
      simp only [step, h]
      exact .idle _ (by simp [MarkedOnce, h])
    | some c =>
      simp only [step, h]
      exact .processed i env c h
  | revive i =>
    cases h : s.delayed[i]? with
    | none =>
      simp only [step, h]
      exact .idle _ (by simp [MarkedOnce, h])
    | some c =>
      simp only [step, h]
      exact .revived i c h

/-- One step keeps the ids unique and the buffer in order. -/
theorem Stepped.inv {cfg : Config} {s s' : Service} {e : Event} (h : Stepped cfg s e s')
    (hs : Inv s) : Inv s' := by
  cases h with
  | idle => exact hs
  | taken _ _ _ _ hinv => exact hinv
  | enqueued id received req hnew =>
    have hinv := inv_add s hs (newRef id received req) hnew
    exact ⟨hinv.nodup, hinv.sorted, hinv.tracked⟩
  | processed i env c htaken =>
    obtain ⟨hinv, hc⟩ := inv_of_perm_cons s (s.dropTaken i) c hs rfl (live_taken s i c htaken)
    exact inv_dispose _ c _ hinv hc
  | revived i c hdelayed =>
    obtain ⟨hinv, hc⟩ := inv_of_perm_cons s (s.dropDelayed i) c hs rfl
      (live_delayed s i c hdelayed)
    exact inv_add _ hinv c hc

theorem ofKind_eq (key : Option Kind) (c d : Ref) (h : kind c = kind d) :
    ofKind key c = ofKind key d := by
  rw [ofKind, ofKind, h]

/-- One step keeps the `:depth` counter right. -/
theorem Stepped.depthAgrees {cfg : Config} {s s' : Service} {e : Event}
    (hst : Stepped cfg s e s') (hs : Inv s) (h : DepthAgrees s) : DepthAgrees s' := by
  intro key
  cases hst with
  | idle => exact h key
  | taken _ hlive hdepth => rw [hdepth, h key, hlive.countP_eq]
  | enqueued id received req hnew =>
    have hcount := (added_live s hs (newRef id received req) hnew).count_ofKind key
    have hlive : (s.enqueue (newRef id received req)).live =
      (s.add (newRef id received req)).live := rfl
    have hdepth : (s.enqueue (newRef id received req)).depth =
      updateCounter (kind (newRef id received req)) 1 s.depth := rfl
    rw [hlive, hcount, hdepth, updateCounter_kind, h key]
    split <;> simp
  | processed i env c htaken =>
    have hkey := h key
    rw [(live_taken s i c htaken).countP_eq, List.countP_cons] at hkey
    have hsame : (s.dropTaken i).depth = s.depth := rfl
    have hdisposed := disposed (s.dropTaken i) c (processMessage cfg (cmdRef c) env).1
    generalize (processMessage cfg (cmdRef c) env).1 = effect at hdisposed ⊢
    cases hdisposed with
    | acknowledged hlive hdepth =>
      rw [hlive, hdepth, updateCounter_kind, hsame, hkey]
      split <;> simp
    | lost effect hlive hdepth =>
      rw [hlive, hdepth, updateCounter_kind, hsame, hkey]
      split <;> simp
    | waits c' again hid hkind hdelete hlive hdepth =>
      rw [hlive.countP_eq, hdepth, hsame, hkey, List.countP_cons, ofKind_eq key again c hkind]
  | revived i c hdelayed =>
    obtain ⟨hinv, hc⟩ := inv_of_perm_cons s (s.dropDelayed i) c hs rfl
      (live_delayed s i c hdelayed)
    have hcount := (added_live _ hinv c hc).count_ofKind key
    have hsame : ((s.dropDelayed i).add c).depth = s.depth := rfl
    rw [hcount, hsame, h key, (live_delayed s i c hdelayed).countP_eq, List.countP_cons]

theorem markedOfKind_eq (key : Option Kind) (c d : Ref) (h : kind c = kind d)
    (hdelete : c.delete = d.delete) : markedOfKind key c = markedOfKind key d := by
  rw [markedOfKind, markedOfKind, ofKind_eq key c d h, hdelete]

/-- The counter of a command that goes is right just where the command is not marked, when
`:invalidated` stays as it is. -/
theorem invalidatedAgrees_gone_iff (s s' : Service) (c : Ref)
    (h : InvalidatedAgrees s) (hperm : s.live.Perm (c :: s'.live))
    (hmark : s'.invalidated = s.invalidated) : InvalidatedAgrees s' ↔ c.delete = false := by
  have hkey : ∀ key, s'.invalidated key =
      (s'.live.countP (markedOfKind key) + if markedOfKind key c then 1 else 0 : Nat) := by
    intro key
    rw [hmark, h key, hperm.countP_eq, List.countP_cons]
  constructor
  · intro hagree
    have hone := hagree none
    rw [hkey none] at hone
    cases hd : c.delete with
    | false => rfl
    | true => simp [markedOfKind, ofKind, hd] at hone
  · intro hd key
    rw [hkey key]
    simp [markedOfKind, hd]

/-- One step keeps the `:invalidated` counter right just where it marks no command twice and
ends no marked command but by acknowledging it. -/
theorem Stepped.invalidatedAgrees_iff {cfg : Config} {s s' : Service} {e : Event}
    (hst : Stepped cfg s e s') (hs : Inv s) (h : InvalidatedAgrees s) :
    InvalidatedAgrees s' ↔ MarkedOnce cfg s e := by
  cases hst with
  | idle _ hok => exact iff_of_true h hok
  | taken _ hlive _ hmark =>
    refine iff_of_true (fun key => ?_) trivial
    rw [hmark, h key, hlive.countP_eq]
  | enqueued id received req hnew =>
    have hfalse : (ids s.live).contains id = false := by simpa using hnew
    have hadd := invalidatedAgrees_add_iff s hs (newRef id received req) hnew fun key => by
      rw [h key]
      simp [markedOfKind, newRef, storeCommand]
    simp only [MarkedOnce, hfalse, forall_const]
    exact hadd
  | processed i env c htaken =>
    have hperm := live_taken s i c htaken
    have hcond : MarkedOnce cfg s (.process i env) ↔
        (c.delete = true → env.load ≠ .ok false ∧ ¬ FailsForGood cfg (cmdRef c) env) := by
      simp [MarkedOnce, htaken]
    rw [hcond]
    have hending := CommandProcessing.processMessage_ending cfg (cmdRef c) env
    cases hending with
    | acknowledged effect found fine =>
      rw [effect]
      refine iff_of_true (fun key => ?_) fun _ => ⟨found, fine⟩
      have hkey := h key
      rw [hperm.countP_eq, List.countP_cons] at hkey
      have hsame : (s.dropTaken i).invalidated = s.invalidated := rfl
      have hlive : ((s.dropTaken i).dispose c .acknowledged).live = (s.dropTaken i).live := rfl
      have hmark : ((s.dropTaken i).dispose c .acknowledged).invalidated =
        if c.delete then updateCounter (kind c) (-1) s.invalidated else s.invalidated := rfl
      rw [hlive, hmark]
      cases hd : c.delete with
      | false => simpa [markedOfKind, hd] using hkey
      | true =>
        simp only [if_true, updateCounter_kind, hkey, markedOfKind, hd, Bool.true_and]
        split <;> simp
    | missing effect lost fine =>
      rw [effect, invalidatedAgrees_gone_iff s ((s.dropTaken i).dispose c .missing) c h hperm rfl]
      simp [lost]
    | delayed c' effect found fine =>
      rw [effect]
      refine iff_of_true (fun key => ?_) fun _ => ⟨found, fine⟩
      cases disposed (s.dropTaken i) c (.delayed c') with
      | waits _ again hid hkind hdelete hlive _ hmark =>
        have hsame : (s.dropTaken i).invalidated = s.invalidated := rfl
        rw [hmark, hlive.countP_eq, hsame, h key, hperm.countP_eq, List.countP_cons,
          List.countP_cons, markedOfKind_eq key again c hkind hdelete]
      | lost _ _ _ _ hlost => simp at hlost
    | discarded c' effect found failed =>
      rw [effect,
        invalidatedAgrees_gone_iff s ((s.dropTaken i).dispose c (.discarded c')) c h hperm rfl]
      simp [failed]
  | revived i c hdelayed =>
    obtain ⟨hinv, hc⟩ := inv_of_perm_cons s (s.dropDelayed i) c hs rfl
      (live_delayed s i c hdelayed)
    have hadd := invalidatedAgrees_add_iff (s.dropDelayed i) hinv c hc fun key => by
      have hkey := h key
      rw [(live_delayed s i c hdelayed).countP_eq, List.countP_cons] at hkey
      exact hkey
    rw [hadd]
    simp [MarkedOnce, hdelayed]

theorem countersAgree_empty : CountersAgree Service.empty :=
  ⟨fun _ => rfl, fun _ => rfl⟩

/-- The `:depth` counter is right in every state that is reached. -/
theorem depthAgrees_run (cfg : Config) (es : List Event) :
    DepthAgrees (run (step cfg) Service.empty es) := by
  refine (run_invariant (I := fun s => Inv s ∧ DepthAgrees s) (fun s e hs => ?_) es _
    ⟨inv_empty, countersAgree_empty.1⟩).2
  have hst := stepped cfg s hs.1 e
  exact ⟨hst.inv hs.1, hst.depthAgrees hs.1 hs.2⟩

/-- Facts of the node `a` that were produced in a given second. -/
def factsAt (seconds : Int) : CommandReq Entry :=
  ⟨.replaceFacts, "a", true, seconds * 1000000000, ⟨5, []⟩⟩

/-- Older facts are marked for newer ones, and then their file cannot be parsed. -/
def unparsedObsolete : List Event :=
  [.enqueue 1 0 (factsAt 1), .enqueue 2 0 (factsAt 2), .take,
   .process 0 ⟨0, .error (.parseError "Error parsing command"), .ok (), 1, fun _ _ => .ok (),
     .ok ()⟩]

end OpenVoxDB.QueueCounters
