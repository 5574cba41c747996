import OpenVoxDB.Streaming

/-!
# What streaming keeps to

At each stage the query holds something: the connection, a registration with the monitor, a
transaction, a statement with its rows, the stream. Each call is allowed only while what it needs
is held, a row is written only after the status has been delivered, and the status is delivered
once. Whatever is thrown, each part of the query gives back what it has taken.
-/

namespace OpenVoxDB.Streaming

open Effects Protocols

variable {Row E : Type}

structure Held where
  writer : Bool
  connection : Bool
  registration : Bool
  transaction : Bool
  statement : Bool
  rows : Bool
  deriving DecidableEq, Repr

namespace Held

def nothing : Held := ⟨false, false, false, false, false, false⟩

def allows (h : Held) : Call Row E → Bool
  | .openWriter => !h.writer && !h.connection
  | .closeWriter => h.writer && !h.connection
  | .connect => !h.connection
  | .disconnect => h.connection && !h.registration && !h.transaction
  | .registerPgPid => h.connection && !h.registration
  | .forget => h.connection && h.registration
  | .begin => h.connection && !h.transaction
  | .commit => h.transaction && !h.statement
  | .rollback => h.transaction && !h.statement
  | .updateLocalTimeouts => h.transaction
  | .querySql => h.transaction
  | .getResultCount => h.transaction
  | .prepareStatement => h.transaction && !h.statement
  | .executeQuery => h.statement && !h.rows
  | .nextRow => h.rows
  | .cancel => h.statement
  | .closeResultSet => h.rows
  | .closeStatement => h.statement && !h.rows
  | .pastDeadline => true
  | .write _ => h.writer
  | .deliver _ => true

/-- What is held after a call that returns. -/
def returned (h : Held) : Call Row E → Held
  | .openWriter => { h with writer := true }
  | .closeWriter => { h with writer := false }
  | .connect => { h with connection := true }
  | .disconnect => { h with connection := false }
  | .registerPgPid => { h with registration := true }
  | .forget => { h with registration := false }
  | .begin => { h with transaction := true }
  | .commit => { h with transaction := false }
  | .rollback => { h with transaction := false }
  | .prepareStatement => { h with statement := true }
  | .executeQuery => { h with rows := true }
  | .closeResultSet => { h with rows := false }
  | .closeStatement => { h with statement := false }
  | _ => h

/-- What is held after a call that throws: what was to be given back is not held any more, except
for a transaction that was to be committed. -/
def threw (h : Held) : Call Row E → Held
  | .closeWriter => { h with writer := false }
  | .disconnect => { h with connection := false }
  | .forget => { h with registration := false }
  | .rollback => { h with transaction := false }
  | .closeResultSet => { h with rows := false }
  | .closeStatement => { h with statement := false }
  | _ => h

end Held

/-- How far the query has got: what is held, the status, the pieces written, whether the deadline
was found to have passed, and what was thrown by which call. -/
structure Stage (Row E : Type) where
  held : Held
  status : Option (Status E)
  sent : List (Piece Row)
  late : Bool
  failures : List (Call Row E × Raised E)

namespace Stage

def start : Stage Row E := ⟨.nothing, none, [], false, []⟩

/-- The status is delivered once, and a piece is written only after that. -/
def allows (s : Stage Row E) (c : Call Row E) : Bool :=
  s.held.allows c &&
    match c with
    | .write _ => s.status.isSome
    | .deliver _ => s.status.isNone
    | _ => true

def returned (s : Stage Row E) (c : Call Row E) (a : Answer) : Stage Row E :=
  match c with
  | .pastDeadline => { s with late := s.late || a.isTrue }
  | .write p => { s with sent := s.sent ++ [p] }
  | .deliver status => { s with status := some status }
  | c => { s with held := s.held.returned c }

def threw (s : Stage Row E) (c : Call Row E) (x : Raised E) : Stage Row E :=
  { s with held := s.held.threw c, failures := (c, x) :: s.failures }

end Stage

/-- The protocol of streaming. -/
def advance (s : Stage Row E) (e : Entry (Call Row E) Answer (Raised E)) : Option (Stage Row E) :=
  if s.allows e.call then
    some
      (match e.outcome with
      | .ok a => s.returned e.call a
      | .error x => s.threw e.call x)
  else none

/-- A computation in the protocol of streaming, from its start. -/
abbrev Streams {α : Type} (s : Stage Row E) (x : Step Row E α)
    (Q : Except (Thrown E) α → Stage Row E → Prop) : Prop := Keeps advance Stage.start s x Q

variable {s t : Stage Row E}

theorem advance_ok (c : Call Row E) (a : Answer) (h : s.allows c = true) :
    advance s ⟨c, .ok a⟩ = some (s.returned c a) := by simp [advance, h]

theorem advance_error (c : Call Row E) (x : Raised E) (h : s.allows c = true) :
    advance s ⟨c, .error x⟩ = some (s.threw c x) := by simp [advance, h]

/-! ## Exceptions -/

/-- An exception is explained by what a call has thrown, by the deadline, or, where it is the one
that ends the thread without a word, by an `IOException`. -/
def Explained (s : Stage Row E) : Thrown E → Prop
  | .raised x => ∃ c, (c, x) ∈ s.failures
  | .rollbackFailed rollback handling => Explained s rollback ∧ Explained s handling
  | .queryTimeout => s.late = true
  | .quietExit => s.status.isSome = true ∧ ∃ c x, (c, x) ∈ s.failures ∧ x.isIo = true

/-- Nothing that was known at the first stage is lost at the second. -/
structure Grows (s t : Stage Row E) : Prop where
  late : s.late = true → t.late = true
  failures : s.failures ⊆ t.failures
  status : s.status.isSome = true → t.status.isSome = true

theorem Grows.refl (s : Stage Row E) : Grows s s := ⟨id, List.Subset.refl _, id⟩

theorem Grows.trans {s t u : Stage Row E} (h : Grows s t) (h' : Grows t u) : Grows s u :=
  ⟨h'.late ∘ h.late, List.Subset.trans h.failures h'.failures, h'.status ∘ h.status⟩

theorem grows_returned (s : Stage Row E) (c : Call Row E) (a : Answer) :
    Grows s (s.returned c a) := by
  cases c <;>
    exact ⟨fun h => by simp [Stage.returned, h], List.Subset.refl _, fun h => by
      simp [Stage.returned, h]⟩

theorem grows_threw (s : Stage Row E) (c : Call Row E) (x : Raised E) : Grows s (s.threw c x) :=
  ⟨id, List.subset_cons_self _ _, id⟩

theorem explained_of_grows (h : Grows s t) (e : Thrown E) (he : Explained s e) :
    Explained t e := by
  induction e with
  | raised x =>
    obtain ⟨c, hc⟩ := he
    exact ⟨c, h.failures hc⟩
  | rollbackFailed rollback handling ihr ihh => exact ⟨ihr he.1, ihh he.2⟩
  | queryTimeout => exact h.late he
  | quietExit =>
    obtain ⟨hstatus, c, x, hmem, hx⟩ := he
    exact ⟨h.status hstatus, c, x, h.failures hmem, hx⟩

theorem explained_threw (s : Stage Row E) (c : Call Row E) (x : Raised E) :
    Explained (s.threw c x) (.raised x) := ⟨c, List.mem_cons_self⟩

/-- Where nothing has failed and there is time, there is nothing to throw. -/
theorem not_explained (hlate : s.late = false) (hfailures : s.failures = []) (e : Thrown E) :
    ¬ Explained s e := by
  induction e with
  | raised x => simp [Explained, hfailures]
  | rollbackFailed rollback handling ihr ihh => exact fun h => ihr h.1
  | queryTimeout => simp [Explained, hlate]
  | quietExit => simp [Explained, hfailures]

/-! ## Rows -/

/-- What is written for these rows. -/
def pieces (rows : List Row) : List (Piece Row) := .startArray :: (rows.map .row ++ [.endArray])

/-- Of all these pieces a part has been written from its start on, all of them unless something was
thrown; nothing else has changed. -/
structure Wrote {α : Type} (all : List (Piece Row)) (s : Stage Row E) (r : Except (Thrown E) α)
    (t : Stage Row E) : Prop where
  held : t.held = s.held
  status : t.status = s.status
  grows : Grows s t
  explained : ∀ e, r = .error e → Explained t e
  sent : ∃ done, done <+: all ∧ t.sent = s.sent ++ done ∧ ∀ a, r = .ok a → done = all

theorem wrote_ok {α : Type} {all : List (Piece Row)} {a : α} (held : t.held = s.held)
    (status : t.status = s.status) (grows : Grows s t) (sent : t.sent = s.sent ++ all) :
    Wrote all s (.ok a) t :=
  ⟨held, status, grows, fun _ h => (by cases h), all, List.prefix_refl _, sent, fun _ _ => rfl⟩

theorem wrote_error {α : Type} {all : List (Piece Row)} {e : Thrown E} (held : t.held = s.held)
    (status : t.status = s.status) (grows : Grows s t) (sent : t.sent = s.sent)
    (explained : Explained t e) : Wrote all s (.error e : Except (Thrown E) α) t :=
  ⟨held, status, grows, fun _ h => Except.error.inj h ▸ explained, [], List.nil_prefix,
    by rw [sent, List.append_nil], fun _ h => by cases h⟩

theorem wrote_nothing {α : Type} (s : Stage Row E) (a : α) : Wrote [] s (.ok a) s :=
  wrote_ok rfl rfl (.refl s) (List.append_nil _).symm

theorem Wrote.trans {α β : Type} {xs ys : List (Piece Row)} {s t u : Stage Row E} {a : α}
    {r : Except (Thrown E) β} (h : Wrote xs s (.ok a : Except (Thrown E) α) t)
    (h' : Wrote ys t r u) : Wrote (xs ++ ys) s r u := by
  obtain ⟨done, -, hsent, hall⟩ := h.sent
  obtain ⟨done', hpart, hsent', hall'⟩ := h'.sent
  have hdone : done = xs := hall a rfl
  refine ⟨h'.held.trans h.held, h'.status.trans h.status, h.grows.trans h'.grows, h'.explained,
    xs ++ done', (List.prefix_append_right_inj xs).mpr hpart, ?_, fun b hb => by rw [hall' b hb]⟩
  rw [hsent', hsent, hdone, List.append_assoc]

theorem Wrote.stop {α β : Type} {xs : List (Piece Row)} {s t : Stage Row E} {e : Thrown E}
    (h : Wrote xs s (.error e : Except (Thrown E) α) t) (ys : List (Piece Row)) :
    Wrote (xs ++ ys) s (.error e : Except (Thrown E) β) t := by
  obtain ⟨done, hpart, hsent, -⟩ := h.sent
  refine ⟨h.held, h.status, h.grows, fun e' he => h.explained e' ?_, done,
    hpart.trans (List.prefix_append xs ys), hsent, fun b hb => by cases hb⟩
  rw [Except.error.inj he]

/-- One part is written after the other. -/
theorem wrote_bind {α β : Type} {x : Step Row E α} {f : α → Step Row E β}
    (xs ys : List (Piece Row)) (R : α → Prop)
    (hx : Streams s x fun r t => Wrote xs s r t ∧ ∀ a, r = .ok a → R a)
    (hf : ∀ a t, R a → t.held = s.held → t.status = s.status → Streams t (f a) (Wrote ys t)) :
    Streams s (x >>= f) (Wrote (xs ++ ys) s) := by
  refine Keeps.bind hx (fun a t h => ?_) fun e t h => h.1.stop ys
  exact (hf a t (h.2 a rfl) h.1.held h.1.status).mono fun r u hu => h.1.trans hu

theorem wrote_then {β : Type} {x : Step Row E Unit} {f : Unit → Step Row E β}
    (xs ys : List (Piece Row)) (hx : Streams s x (Wrote xs s))
    (hf : ∀ t, t.held = s.held → t.status = s.status → Streams t (f ()) (Wrote ys t)) :
    Streams s (x >>= f) (Wrote (xs ++ ys) s) :=
  wrote_bind xs ys (fun _ => True) (hx.mono fun _ _ h => ⟨h, fun _ _ => trivial⟩)
    fun _ t _ hheld hstatus => hf t hheld hstatus

theorem performWrite_keeps (p : Piece Row) (hwriter : s.held.writer = true)
    (hstatus : s.status.isSome = true) : Streams s (perform (.write p)) (Wrote [p] s) := by
  have hallowed : s.allows (.write p) = true := by simp [Stage.allows, Held.allows, hwriter, hstatus]
  refine Keeps.bindCall _ _ (fun a => ⟨_, advance_ok _ a hallowed, Keeps.pure () ?_⟩) fun x =>
    ⟨_, advance_error _ x hallowed, ?_⟩
  · exact wrote_ok rfl rfl (grows_returned s _ a) rfl
  · exact wrote_error rfl rfl (grows_threw s _ x) rfl (explained_threw s _ x)

theorem checkDeadline_keeps (limited : Bool) : Streams s (checkDeadline limited) (Wrote [] s) := by
  cases limited with
  | false => exact Keeps.pure () (wrote_nothing s ())
  | true =>
    have hallowed : s.allows .pastDeadline = true := rfl
    refine Keeps.bindCall _ _ (fun a => ⟨_, advance_ok _ a hallowed, ?_⟩) fun x =>
      ⟨_, advance_error _ x hallowed, ?_⟩
    · by_cases ha : a.isTrue = true
      · rw [if_pos ha]
        have hlate : (s.returned .pastDeadline a).late = true := by simp [Stage.returned, ha]
        exact Keeps.throw _ (wrote_error rfl rfl (grows_returned s _ a) rfl hlate)
      · rw [if_neg ha]
        exact Keeps.pure () (wrote_ok rfl rfl (grows_returned s _ a) (List.append_nil _).symm)
    · exact wrote_error rfl rfl (grows_threw s _ x) rfl (explained_threw s _ x)

theorem fetch_keeps (hrows : s.held.rows = true) : Streams s (call .nextRow) (Wrote [] s) := by
  have hallowed : s.allows .nextRow = true := by simp [Stage.allows, Held.allows, hrows]
  refine Keeps.call _ _ fun o => ?_
  cases o with
  | ok a =>
    exact ⟨_, advance_ok _ a hallowed,
      wrote_ok rfl rfl (grows_returned s _ a) (List.append_nil _).symm⟩
  | error x =>
    exact ⟨_, advance_error _ x hallowed,
      wrote_error rfl rfl (grows_threw s _ x) rfl (explained_threw s _ x)⟩

theorem nextRow_keeps (limited : Bool) (rows : List Row) (hrows : s.held.rows = true) :
    Streams s (nextRow limited rows) fun r t =>
      Wrote [] s r t ∧ ∀ a, r = .ok a → a = rows.next? := by
  have hcheck {s' : Stage Row E} : Streams s' (checkDeadline limited) fun r t =>
      Wrote [] s' r t ∧ ∀ a, r = .ok a → True :=
    (checkDeadline_keeps limited).mono fun r t h => ⟨h, fun _ _ => trivial⟩
  cases rows with
  | nil =>
    refine Keeps.bind (checkDeadline_keeps limited) (fun a t h => ?_) fun e t h =>
      ⟨h.stop [], fun a h => by cases h⟩
    refine Keeps.bind (fetch_keeps (h.held ▸ hrows)) (fun a u hu => ?_) fun e u hu =>
      ⟨h.trans (hu.stop []), fun a h => by cases h⟩
    exact Keeps.pure _ ⟨h.trans (hu.trans (wrote_nothing u none)), fun a ha => (Except.ok.inj ha).symm⟩
  | cons row rows =>
    refine Keeps.bind (checkDeadline_keeps limited) (fun a t h => ?_) fun e t h =>
      ⟨h.stop [], fun a h => by cases h⟩
    refine Keeps.bind (fetch_keeps (h.held ▸ hrows)) (fun a u hu => ?_) fun e u hu =>
      ⟨h.trans (hu.stop []), fun a h => by cases h⟩
    refine Keeps.bind (checkDeadline_keeps limited) (fun a v hv => ?_) fun e v hv =>
      ⟨h.trans (hu.trans (hv.stop [])), fun a h => by cases h⟩
    exact Keeps.pure _ ⟨h.trans (hu.trans (hv.trans (wrote_nothing v _))),
      fun a ha => (Except.ok.inj ha).symm⟩

/-- Rows are written in their order. -/
theorem writeRows_keeps (limited : Bool) (rows : List Row) (s : Stage Row E)
    (hrows : s.held.rows = true) (hwriter : s.held.writer = true)
    (hstatus : s.status.isSome = true) :
    Streams s (writeRows limited rows) (Wrote (rows.map .row) s) := by
  induction rows generalizing s with
  | nil =>
    have hnext := nextRow_keeps limited ([] : List Row) hrows
    exact wrote_bind [] [] _ hnext fun a t _ _ _ => Keeps.pure () (wrote_nothing t ())
  | cons row rows ih =>
    have hnext := nextRow_keeps limited (row :: rows) hrows
    refine wrote_bind [] (.row row :: rows.map .row) _ hnext fun a t _ hheld hstat => ?_
    have hwrite : Streams t (perform (.write (.row row))) (Wrote [.row row] t) :=
      performWrite_keeps _ (hheld ▸ hwriter) (hstat ▸ hstatus)
    refine wrote_then [.row row] (rows.map .row) hwrite fun u hheld' hstat' => ?_
    exact ih u (by rw [hheld', hheld, hrows]) (by rw [hheld', hheld, hwriter])
      (by rw [hstat', hstat, hstatus])

theorem writeFrom_keeps (limited : Bool) (rows : List Row) (hrows : s.held.rows = true)
    (hwriter : s.held.writer = true) (hstatus : s.status.isSome = true) :
    Streams s (writeFrom limited rows.next?) (Wrote (rows.map .row) s) := by
  cases rows with
  | nil => exact Keeps.pure () (wrote_nothing s ())
  | cons row rows =>
    have hwrite := performWrite_keeps (.row row) hwriter hstatus
    refine wrote_then [.row row] (rows.map .row) hwrite fun t hheld hstat => ?_
    exact writeRows_keeps limited rows t (hheld ▸ hrows) (hheld ▸ hwriter) (hstat ▸ hstatus)

theorem streamJson_keeps (limited : Bool) (rows : List Row) (hrows : s.held.rows = true)
    (hwriter : s.held.writer = true) (hstatus : s.status.isSome = true) :
    Streams s (streamJson limited rows.next?) (Wrote (pieces rows) s) := by
  refine wrote_then [.startArray] (rows.map .row ++ [.endArray]) (performWrite_keeps _ hwriter hstatus)
    fun t hheld hstat => ?_
  have hfrom := writeFrom_keeps limited rows (hheld ▸ hrows) (hheld ▸ hwriter) (hstat ▸ hstatus)
  refine wrote_then (rows.map .row) [.endArray] hfrom fun u hheld' hstat' => performWrite_keeps _ ?_ ?_
  · rw [hheld', hheld, hwriter]
  · rw [hstat', hstat, hstatus]

/-! ## The query -/

/-- Before the status is delivered nothing has been written; later a part of what is to be written
has been, and all of it unless something was thrown. -/
structure Ends (rows : List Row) (held : Held) (r : Except (Thrown E) Unit) (t : Stage Row E) :
    Prop where
  held : t.held = held
  explained : ∀ e, r = .error e → Explained t e
  progress : (t.status = none ∧ t.sent = []) ∨
    ∃ count, t.status = some (.started count) ∧ t.sent <+: pieces rows
  complete : r = .ok () → ∃ count, t.status = some (.started count) ∧ t.sent = pieces rows

/-- Nothing has been delivered. -/
def Waiting (s : Stage Row E) : Prop := s.status = none ∧ s.sent = []

theorem ends_threw_of_waiting {rows : List Row} (c : Call Row E) (x : Raised E) (h : Waiting s) :
    Ends rows (s.held.threw c) (.error (.raised x)) (s.threw c x) :=
  ⟨rfl, fun _ he => Except.error.inj he ▸ explained_threw s c x, .inl h, fun h' => by cases h'⟩

/-- Calls that neither write nor deliver nor look at the time. -/
def isPlain : Call Row E → Bool
  | .pastDeadline | .write _ | .deliver _ => false
  | _ => true

theorem returned_of_isPlain (c : Call Row E) (a : Answer) (h : isPlain c = true) :
    s.returned c a = { s with held := s.held.returned c } := by
  cases c <;> first | rfl | cases h

/-- What ends with some call around it ends as well. -/
theorem ends_threw {rows : List Row} {held : Held} {r : Except (Thrown E) Unit} (c : Call Row E)
    (x : Raised E) (h : Ends rows held r t) : Ends rows (held.threw c) r (t.threw c x) :=
  ⟨by rw [← h.held]; rfl,
    fun e he => explained_of_grows (grows_threw t c x) e (h.explained e he), h.progress, h.complete⟩

theorem ends_raised {rows : List Row} {held : Held} {r : Except (Thrown E) Unit} (c : Call Row E)
    (x : Raised E) (h : Ends rows held r t) :
    Ends rows (held.threw c) (.error (.raised x)) (t.threw c x) :=
  ⟨by rw [← h.held]; rfl, fun e he => Except.error.inj he ▸ explained_threw t c x, h.progress,
    fun h' => by cases h'⟩

theorem grows_held (s : Stage Row E) (h : Held) : Grows s { s with held := h } :=
  ⟨id, List.Subset.refl _, id⟩

theorem ends_returned {rows : List Row} {held : Held} {r : Except (Thrown E) Unit} (c : Call Row E)
    (a : Answer) (hc : isPlain c = true) (h : Ends rows held r t) :
    Ends rows (held.returned c) r (t.returned c a) := by
  rw [returned_of_isPlain c a hc, h.held]
  exact ⟨rfl, fun e he => explained_of_grows (grows_held t _) e (h.explained e he), h.progress,
    h.complete⟩

theorem allows_of_isPlain (c : Call Row E) (hc : isPlain c = true) :
    s.allows c = s.held.allows c := by
  cases c <;> first | exact Bool.and_true _ | cases hc

theorem waiting_returned (c : Call Row E) (a : Answer) (hc : isPlain c = true) (h : Waiting s) :
    Waiting (s.returned c a) := by
  rw [returned_of_isPlain c a hc]
  exact h

/-- What was taken is given back: what is thrown then is thrown on. -/
theorem close_keeps {rows : List Row} {held : Held} {r : Except (Thrown E) Unit} (c : Call Row E)
    (hc : isPlain c = true) (hallows : held.allows c = true) (hthrew : held.threw c = held.returned c)
    (h : Ends rows held r t) :
    Streams t (call c) fun final => Ends rows (held.returned c) (Action.override r final) := by
  have hallowed : t.allows c = true := by rw [allows_of_isPlain c hc, h.held, hallows]
  refine Keeps.call _ _ fun o => ?_
  cases o with
  | ok a => exact ⟨_, advance_ok c a hallowed, ends_returned c a hc h⟩
  | error x => exact ⟨_, advance_error c x hallowed, hthrew ▸ ends_raised c x h⟩

theorem withDbConnection_keeps {rows : List Row} {body : Step Row E Unit} (hwaiting : Waiting s)
    (hconnection : s.held.connection = false) (hregistration : s.held.registration = false)
    (htransaction : s.held.transaction = false)
    (hbody : ∀ t, Waiting t → t.held = s.held.returned (.connect : Call Row E) →
      Streams t body (Ends rows t.held)) :
    Streams s (withDbConnection body) (Ends rows s.held) := by
  have hallowed : s.allows .connect = true := by simp [Stage.allows, Held.allows, hconnection]
  refine Keeps.bindCall _ _ (fun a => ⟨_, advance_ok _ a hallowed, ?_⟩) fun x =>
    ⟨_, advance_error _ x hallowed, ends_threw_of_waiting .connect x hwaiting⟩
  refine Keeps.closing (hbody _ (waiting_returned _ a rfl hwaiting) rfl) fun r t h => ?_
  have hback : (s.held.returned (.connect : Call Row E)).returned (.disconnect : Call Row E) =
      s.held := by
    simp [Held.returned, ← hconnection]
  have hclose := close_keeps .disconnect rfl (by
    simp [Stage.returned, Held.returned, Held.allows, hregistration, htransaction]) rfl h
  rw [show (s.returned .connect a).held = s.held.returned (.connect : Call Row E) from rfl,
    hback] at hclose
  exact hclose

theorem perform_keeps {rows : List Row} (c : Call Row E) (hc : isPlain c = true)
    (hallows : s.held.allows c = true) (hreturned : s.held.returned c = s.held)
    (hthrew : s.held.threw c = s.held) (h : Waiting s) :
    Streams s (perform c) fun r t => (r = .ok () → t.held = s.held ∧ Waiting t) ∧
      ∀ e, r = .error e → Ends rows s.held (.error e) t := by
  have hallowed : s.allows c = true := by rw [allows_of_isPlain c hc, hallows]
  refine Keeps.bindCall _ _ (fun a => ⟨_, advance_ok c a hallowed, Keeps.pure () ⟨fun _ => ?_, ?_⟩⟩)
    fun x => ⟨_, advance_error c x hallowed, fun h' => (by cases h'), fun e he => ?_⟩
  · rw [returned_of_isPlain c a hc]
    exact ⟨hreturned, h⟩
  · exact fun e he => by cases he
  · rw [← Except.error.inj he]
    exact hthrew ▸ ends_threw_of_waiting c x h

/-- The process is forgotten where it is known, and while the connection is still held. -/
theorem whileRegistered_keeps (monitored : Bool) {rows : List Row} {body : Step Row E Unit}
    (hwaiting : Waiting s) (hconnection : s.held.connection = true)
    (hregistration : s.held.registration = false)
    (hbody : ∀ t, Waiting t → t.held = { s.held with registration := monitored } →
      Streams t body (Ends rows t.held)) :
    Streams s (whileRegistered monitored body) (Ends rows s.held) := by
  cases monitored with
  | false =>
    have hsame : s.held = { s.held with registration := false } := by rw [← hregistration]
    refine Keeps.bind (Keeps.pure () (Q := fun r t => t = s ∧ r = .ok ()) ⟨rfl, rfl⟩) ?_ ?_
    · rintro - t ⟨rfl, -⟩
      refine Keeps.finallyDo (hbody t hwaiting hsame) fun r u h => Keeps.pure () ?_
      cases r <;> exact h
    · rintro e t ⟨-, h⟩
      cases h
  | true =>
    have hallowed : s.allows .registerPgPid = true := by
      simp [Stage.allows, Held.allows, hconnection, hregistration]
    have hregister : Streams s (performWhen true .registerPgPid) fun r t =>
        (∀ u, r = .ok u → Waiting t ∧ t.held = { s.held with registration := true }) ∧
          ∀ e, r = .error e → Ends rows s.held (.error e) t := by
      refine Keeps.bindCall _ _ (fun a => ⟨_, advance_ok _ a hallowed, Keeps.pure () ⟨?_, ?_⟩⟩)
        fun x => ⟨_, advance_error _ x hallowed, fun u h => (by cases h), fun e h => ?_⟩
      · exact fun _ _ => ⟨hwaiting, rfl⟩
      · exact fun e h => by cases h
      · rw [← Except.error.inj h]
        exact ends_threw_of_waiting .registerPgPid x hwaiting
    refine Keeps.bind hregister (fun u t h => ?_) fun e t h => h.2 e rfl
    obtain ⟨hwait, hheld⟩ := h.1 u rfl
    refine Keeps.finallyDo (hbody t hwait hheld) fun r v hv => ?_
    have hallowed' : v.allows .forget = true := by
      simp [Stage.allows, Held.allows, hv.held, hheld, hconnection]
    have hback : t.held.returned (.forget : Call Row E) = s.held := by
      rw [hheld, Held.returned, ← hregistration]
    refine Keeps.bindCall _ _ (fun a => ⟨_, advance_ok _ a hallowed', Keeps.pure () ?_⟩) fun x =>
      ⟨_, advance_error _ x hallowed', ?_⟩
    · have hreturned := ends_returned .forget a rfl hv
      rw [hback] at hreturned
      cases r <;> exact hreturned
    · cases r with
      | ok u =>
        have hraised := ends_raised .forget x hv
        rw [show t.held.threw (.forget : Call Row E) = t.held.returned .forget from rfl, hback]
          at hraised
        exact hraised
      | error e =>
        have hthrew := ends_threw .forget x hv
        rw [show t.held.threw (.forget : Call Row E) = t.held.returned .forget from rfl, hback]
          at hthrew
        exact hthrew

/-- A transaction is over when it has been committed or rolled back. -/
theorem withDbTransaction_keeps {rows : List Row} {body : Step Row E Unit} (hwaiting : Waiting s)
    (hconnection : s.held.connection = true) (htransaction : s.held.transaction = false)
    (hstatement : s.held.statement = false)
    (hbody : ∀ t, Waiting t → t.held = { s.held with transaction := true } →
      Streams t body (Ends rows t.held)) :
    Streams s (withDbTransaction body) (Ends rows s.held) := by
  have hallowed : s.allows .begin = true := by
    simp [Stage.allows, Held.allows, hconnection, htransaction]
  have hback : ({ s.held with transaction := true } : Held).returned (.commit : Call Row E) =
      s.held := by
    rw [Held.returned, ← htransaction]
  have hback' : ({ s.held with transaction := true } : Held).returned (.rollback : Call Row E) =
      s.held := hback
  refine Keeps.transact (P := fun r t => Ends rows { s.held with transaction := true } r t)
    (fun t => Waiting t ∧ t.held = { s.held with transaction := true }) ?_ ?_ ?_ ?_
  · refine Keeps.bindCall _ _ (fun a => ⟨_, advance_ok _ a hallowed, Keeps.pure () ⟨fun _ => ?_,
      fun e h => by cases h⟩⟩) fun x => ⟨_, advance_error _ x hallowed, fun h => (by cases h),
        fun e h => ?_⟩
    · exact ⟨hwaiting, rfl⟩
    · rw [← Except.error.inj h]
      exact ends_threw_of_waiting .begin x hwaiting
  · intro t ht
    have hkeeps := hbody t ht.1 ht.2
    rw [ht.2] at hkeeps
    exact hkeeps
  · intro a t h
    have hcommit : t.allows .commit = true := by
      simp [Stage.allows, Held.allows, h.held, hstatement]
    refine Keeps.bindCall _ _ (fun b => ⟨_, advance_ok _ b hcommit, Keeps.pure () ⟨fun _ => ?_,
      fun e h' => by cases h'⟩⟩) fun x => ⟨_, advance_error _ x hcommit, fun h' => (by cases h'),
        fun e h' => ?_⟩
    · have hreturned := ends_returned .commit b rfl h
      rw [hback] at hreturned
      exact hreturned
    · rw [← Except.error.inj h']
      exact ends_raised .commit x h
  · intro e t h
    have hrollback : t.allows .rollback = true := by
      simp [Stage.allows, Held.allows, h.held, hstatement]
    refine Keeps.bindCall _ _ (fun b => ⟨_, advance_ok _ b hrollback, Keeps.pure () ⟨fun _ => ?_,
      fun e' h' => by cases h'⟩⟩) fun x => ⟨_, advance_error _ x hrollback, fun h' => (by cases h'),
        fun e' h' => ?_⟩
    · have hreturned := ends_returned .rollback b rfl h
      rw [hback'] at hreturned
      exact hreturned
    · have hthrew := ends_threw .rollback x h
      rw [show ({ s.held with transaction := true } : Held).threw (.rollback : Call Row E) =
        s.held from hback] at hthrew
      rw [← Except.error.inj h']
      exact ⟨hthrew.held, fun e'' he => Except.error.inj he ▸
        ⟨explained_threw t .rollback x, hthrew.explained e rfl⟩, hthrew.progress,
        fun h'' => by cases h''⟩

/-- The statement and its rows are closed, whatever becomes of `f`. -/
theorem callWithArrayConvertedQueryRows_keeps {rows : List Row} {f : Step Row E Unit}
    (hwaiting : Waiting s) (htransaction : s.held.transaction = true)
    (hstatement : s.held.statement = false) (hrows : s.held.rows = false)
    (hf : ∀ t, Waiting t → t.held = { s.held with statement := true, rows := true } →
      Streams t f (Ends rows t.held)) :
    Streams s (callWithArrayConvertedQueryRows f) (Ends rows s.held) := by
  have hallowed : s.allows .prepareStatement = true := by
    simp [Stage.allows, Held.allows, htransaction, hstatement]
  refine Keeps.bindCall _ _ (fun a => ⟨_, advance_ok _ a hallowed, ?_⟩) fun x =>
    ⟨_, advance_error _ x hallowed, ends_threw_of_waiting .prepareStatement x hwaiting⟩
  have hprepared : (s.returned .prepareStatement a).held = { s.held with statement := true } := rfl
  refine Keeps.closing (P := Ends rows { s.held with statement := true }) ?_ fun r t h => ?_
  · have hexecute : (s.returned .prepareStatement a).allows .executeQuery = true := by
      simp [Stage.allows, Held.allows, hprepared, hrows]
    refine Keeps.bindCall _ _ (fun b => ⟨_, advance_ok _ b hexecute, ?_⟩) fun x =>
      ⟨_, advance_error _ x hexecute,
        ends_threw_of_waiting (s := s.returned .prepareStatement a) .executeQuery x hwaiting⟩
    refine Keeps.closing (P := Ends rows { s.held with statement := true, rows := true }) ?_
      fun r t h => ?_
    · refine Keeps.tryCatch (hf _ hwaiting rfl) (fun e t h => ?_) fun u t h => h
      cases he : e.isException with
      | false =>
        exact Keeps.bind (Keeps.pure () (Q := fun r t' => t' = t ∧ r = .ok ()) ⟨rfl, rfl⟩)
          (fun u t' h' => Keeps.throw e (h'.1 ▸ h)) fun e' t' h' => by cases h'.2
      | true =>
        have hcancel : t.allows .cancel = true := by
          simp [Stage.allows, Held.allows, h.held, Stage.returned, Held.returned]
        refine Keeps.bind (P := fun r t' => (r = .ok () → Ends rows
          { s.held with statement := true, rows := true } (.error e) t') ∧
            ∀ e', r = .error e' → Ends rows
              { s.held with statement := true, rows := true } (.error e') t') ?_
          (fun u t' h' => Keeps.throw e (h'.1 rfl)) fun e' t' h' => h'.2 e' rfl
        refine Keeps.bindCall _ _ (fun c => ⟨_, advance_ok _ c hcancel, Keeps.pure ()
          ⟨fun _ => ends_returned .cancel c rfl h, fun e' h' => by cases h'⟩⟩) fun x =>
            ⟨_, advance_error _ x hcancel, fun h' => (by cases h'), fun e' h' => ?_⟩
        rw [← Except.error.inj h']
        exact ends_raised .cancel x h
    · have hclose := close_keeps .closeResultSet rfl rfl rfl h
      rw [show ({ s.held with statement := true, rows := true } : Held).returned
        (.closeResultSet : Call Row E) = { s.held with statement := true } by
          simp [Held.returned, ← hrows]] at hclose
      exact hclose
  · have hclose := close_keeps .closeStatement rfl (by simp [Held.allows, hrows]) rfl h
    rw [show ({ s.held with statement := true } : Held).returned (.closeStatement : Call Row E) =
      s.held by simp [Held.returned, ← hstatement]] at hclose
    exact hclose

theorem explained_quietly (e : Thrown E) (hstatus : t.status.isSome = true) (h : Explained t e) :
    Explained t (quietly e) := by
  cases e with
  | raised x =>
    obtain ⟨c, hc⟩ := h
    by_cases hx : x.isIo = true
    · rw [quietly, if_pos hx]
      exact ⟨hstatus, c, x, hc, hx⟩
    · rw [quietly, if_neg hx]
      exact ⟨c, hc⟩
  | rollbackFailed rollback handling => exact h
  | queryTimeout => exact h
  | quietExit => exact h

/-- The status is delivered between the first row and the first piece. -/
theorem streamRows_keeps (limited : Bool) (count : Option Nat) (rows : List Row)
    (hwaiting : Waiting s) (hwriter : s.held.writer = true) (hrows : s.held.rows = true) :
    Streams s (streamRows limited count rows) (Ends rows s.held) := by
  refine Keeps.bind (nextRow_keeps limited rows hrows) (fun first t h => ?_) fun e t h => ?_
  · obtain ⟨hwrote, hfirst⟩ := h
    obtain ⟨done, hdone, hsent, -⟩ := hwrote.sent
    have hnone : t.status = none := hwrote.status.trans hwaiting.1
    have hempty : t.sent = [] := by rw [hsent, hwaiting.2, List.prefix_nil.mp hdone]; rfl
    have hallowed : t.allows (.deliver (.started count)) = true := by
      simp [Stage.allows, Held.allows, hnone]
    have hdeliver : Streams t (deliver (.started count)) fun r u =>
        r = .ok () ∧ u = t.returned (.deliver (.started count)) .done :=
      Keeps.note _ _ (advance_ok _ _ hallowed) ⟨rfl, rfl⟩
    refine Keeps.bind hdeliver ?_ fun e u hu => by cases hu.1
    rintro - u ⟨-, rfl⟩
    rw [hfirst first rfl]
    refine Keeps.tryCatch (streamJson_keeps limited rows (by rw [← hrows, ← hwrote.held]; rfl)
      (by rw [← hwriter, ← hwrote.held]; rfl) rfl) (fun e v hv => ?_) fun a v hv => ?_
    · obtain ⟨done, hpart, hsent, -⟩ := hv.sent
      have hstatus : v.status = some (.started count) := hv.status
      refine Keeps.throw _ ⟨hv.held.trans hwrote.held, fun e' he => Except.error.inj he ▸
        explained_quietly e (by rw [hstatus]; rfl) (hv.explained e rfl),
        .inr ⟨count, hstatus, ?_⟩, fun h' => by cases h'⟩
      rw [hsent, Stage.returned, hempty]
      exact hpart
    · obtain ⟨done, hpart, hsent, hall⟩ := hv.sent
      have hpieces : v.sent = pieces rows := by
        rw [hsent, Stage.returned, hempty, hall a rfl]
        rfl
      exact ⟨hv.held.trans hwrote.held, fun e h' => (by cases h'),
        .inr ⟨count, hv.status, hpieces ▸ List.prefix_refl _⟩, fun _ => ⟨count, hv.status, hpieces⟩⟩
  · obtain ⟨hwrote, -⟩ := h
    obtain ⟨done, hdone, hsent, -⟩ := hwrote.sent
    refine ⟨hwrote.held, fun e' he => Except.error.inj he ▸ hwrote.explained e rfl,
      .inl ⟨hwrote.status.trans hwaiting.1, ?_⟩, fun h' => by cases h'⟩
    rw [hsent, hwaiting.2, List.prefix_nil.mp hdone]
    rfl

theorem runQuery_keeps (limited : Bool) (rows : List Row) (hwaiting : Waiting s)
    (hwriter : s.held.writer = true) (htransaction : s.held.transaction = true)
    (hstatement : s.held.statement = false) (hrows : s.held.rows = false) :
    Streams s (runQuery limited rows) (Ends rows s.held) := by
  have hperform (t : Stage Row E) (ht : t.held = s.held) (hwait : Waiting t) :
      Streams t (perform .updateLocalTimeouts) fun r u =>
        (r = .ok () → u.held = t.held ∧ Waiting u) ∧
          ∀ e, r = .error e → Ends rows t.held (.error e) u :=
    perform_keeps .updateLocalTimeouts rfl (by rw [ht]; exact htransaction) rfl rfl hwait
  refine Keeps.bind (hperform s rfl hwaiting) (fun _ t h => ?_) fun e t h => h.2 e rfl
  obtain ⟨hheld, hwait⟩ := h.1 rfl
  have hquery : t.allows .querySql = true := by
    simp [Stage.allows, Held.allows, hheld, htransaction]
  refine Keeps.bindCall _ _ (fun a => ⟨_, advance_ok _ a hquery, ?_⟩) fun x =>
    ⟨_, advance_error _ x hquery, hheld ▸ ends_threw_of_waiting .querySql x hwait⟩
  have hcount : Streams (t.returned .querySql a) (resultCount a.isTrue) fun r u =>
      (∀ n, r = .ok n → u.held = s.held ∧ Waiting u) ∧
        ∀ e, r = .error e → Ends rows s.held (.error e) u := by
    cases a.isTrue with
    | false => exact Keeps.pure _ ⟨fun _ _ => ⟨hheld, hwait⟩, fun e h' => by cases h'⟩
    | true =>
      have hallowed : (t.returned .querySql a).allows .getResultCount = true := by
        simp [Stage.allows, Held.allows, Stage.returned, Held.returned, hheld, htransaction]
      refine Keeps.bindCall _ _ (fun b => ⟨_, advance_ok _ b hallowed, Keeps.pure _
        ⟨fun _ _ => ⟨hheld, hwait⟩, fun e h' => by cases h'⟩⟩) fun x =>
          ⟨_, advance_error _ x hallowed, fun n h' => (by cases h'), fun e he => ?_⟩
      rw [← Except.error.inj he, ← hheld]
      exact ends_threw_of_waiting .getResultCount x hwait
  refine Keeps.bind hcount (fun n u hu => ?_) fun e u hu => hu.2 e rfl
  obtain ⟨hheld', hwait'⟩ := hu.1 n rfl
  refine Keeps.bind (hperform u hheld' hwait') (fun _ v hv => ?_) fun e v hv => hheld' ▸ hv.2 e rfl
  obtain ⟨hheld'', hwait''⟩ := hv.1 rfl
  have hsame : v.held = s.held := hheld''.trans hheld'
  rw [← hsame]
  refine callWithArrayConvertedQueryRows_keeps hwait'' (by rw [hsame, htransaction])
    (by rw [hsame, hstatement]) (by rw [hsame, hrows]) fun w hw hheldw => ?_
  exact streamRows_keeps limited n rows hw (by rw [hheldw, hsame, hwriter]) (by rw [hheldw])

end OpenVoxDB.Streaming
