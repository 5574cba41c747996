import OpenVoxDB.StreamingProtocol

/-!
# How streaming ends

In the end nothing is held and the status has been delivered, whatever was thrown; and what the
stream has got is told from the status, from a message behind the rows, or from an exception.
-/

namespace OpenVoxDB.Streaming

open Effects Protocols

variable {Row E : Type} {s t : Stage Row E}

/-! ## What the client is told -/

/-- A call has been cut off by one of the timeouts that the database was told. -/
def TimedOut (s : Stage Row E) : Prop :=
  ∃ c postgres state, (c, .sql postgres state) ∈ s.failures ∧ isLocalTimeout state = true

/-- Why a message is written. -/
def Warrants (s : Stage Row E) : Message → Prop
  | .queryTimeout => s.late = true
  | .queryTerminated => ∃ c postgres, (c, .sql postgres (some "57P01")) ∈ s.failures

/-- A part of the array of the rows, with a message behind it. -/
def EndsInMessage (rows : List Row) (s : Stage Row E) : Prop :=
  ∃ done m, done <+: pieces rows ∧ s.sent = done ++ [.message m] ∧ Warrants s m

/-- These are not thrown on, once the response has been started. -/
def isSilent : Thrown E → Bool
  | .quietExit => true
  | .queryTimeout => true
  | .rollbackFailed _ handling => handling.isAdminShutdown
  | .raised _ => false

/-- Why an exception arrives at the last `catch` clause; the two that end the response with a
message are no longer among them, but what the database cuts off is a timeout by now. -/
def Left (s : Stage Row E) (e : Thrown E) : Prop :=
  (Explained s e ∧ (s.status.isSome = true → isSilent e = true → e = .quietExit)) ∨
    (e = .queryTimeout ∧ TimedOut s)

/-- What there is to the stream when the last `catch` clause is reached. -/
structure Told (rows : List Row) (held : Held) (r : Except (Thrown E) Unit) (t : Stage Row E) :
    Prop where
  held : t.held = held
  left : ∀ e, r = .error e → Left t e
  progress : (Waiting t ∧ ∃ e, r = .error e) ∨
    ∃ count, t.status = some (.started count) ∧ (t.sent <+: pieces rows ∨ EndsInMessage rows t)
  complete : r = .ok () → t.sent = pieces rows ∨ EndsInMessage rows t

theorem told_of_ok {rows : List Row} {held : Held} (h : Ends rows held (.ok ()) t) :
    Told rows held (.ok ()) t := by
  obtain ⟨count, hstatus, hsent⟩ := h.complete rfl
  exact ⟨h.held, fun e h' => (by cases h'), .inr ⟨count, hstatus, .inl (hsent ▸ List.prefix_refl _)⟩,
    fun _ => .inl hsent⟩

/-- Exceptions that the clauses throw on. -/
theorem told_of_left {rows : List Row} {held : Held} {e e' : Thrown E}
    (h : Ends rows held (.error e) t) (hleft : Left t e') : Told rows held (.error e') t := by
  refine ⟨h.held, fun e'' h' => Except.error.inj h' ▸ hleft, ?_, fun h' => by cases h'⟩
  rcases h.progress with hwaiting | ⟨count, hstatus, hsent⟩
  · exact .inl ⟨hwaiting, e', rfl⟩
  · exact .inr ⟨count, hstatus, .inl hsent⟩

theorem writeMessage_keeps {rows : List Row} {e : Thrown E} (m : Message)
    (h : Ends rows t.held (.error e) t) (hwriter : t.held.writer = true)
    (hstatus : t.status.isSome = true) (hwarrants : Warrants t m) :
    Streams t (perform (.write (.message m))) (Told rows t.held) := by
  obtain ⟨count, hstarted, hpart⟩ : ∃ count, t.status = some (.started count) ∧
      t.sent <+: pieces rows := by
    rcases h.progress with hwaiting | h'
    · rw [hwaiting.1] at hstatus
      cases hstatus
    · exact h'
  have hallowed : t.allows (.write (.message m)) = true := by
    simp [Stage.allows, Held.allows, hwriter, hstatus]
  refine Keeps.bindCall _ _ (fun a => ⟨_, advance_ok _ a hallowed, Keeps.pure () ?_⟩) fun x =>
    ⟨_, advance_error _ x hallowed, ?_⟩
  · have hends : EndsInMessage rows (t.returned (.write (.message m)) a) := by
      refine ⟨t.sent, m, hpart, rfl, ?_⟩
      cases m <;> exact hwarrants
    exact ⟨rfl, fun e' h' => (by cases h'), .inr ⟨count, hstarted, .inr hends⟩, fun _ => .inr hends⟩
  · refine told_of_left (ends_raised (.write (.message m)) x h) (.inl ⟨explained_threw t _ x, fun _ h' => ?_⟩)
    cases h'

/-- The calls so far tell whether the status has been delivered, and which. -/
theorem status_of_follow {log : CallLog Row E} (h : follow advance s log = some t) :
    t.status = s.status.or (delivered log) := by
  induction log generalizing s with
  | nil =>
    rw [follow_nil] at h
    rw [← Option.some.inj h]
    exact (Option.or_none).symm
  | cons e log ih =>
    rw [follow_cons, Option.bind_eq_some_iff] at h
    obtain ⟨s', hfirst, hrest⟩ := h
    rw [ih hrest]
    obtain ⟨c, o⟩ := e
    rw [advance] at hfirst
    split at hfirst
    · rename_i hallowed
      have hs' := Option.some.inj hfirst
      cases c <;> cases o <;>
        simp_all [Stage.returned, Stage.threw, delivered, Stage.allows, ← hs']
    · cases hfirst

theorem realized_of_follow {log : CallLog Row E} (h : follow advance Stage.start log = some t) :
    realized log = t.status.isSome := by
  rw [realized, status_of_follow h]
  rfl

theorem readStatus_keeps (t : Stage Row E) :
    Streams t Action.past fun r u => u = t ∧ ∃ log, r = .ok log ∧ realized log = t.status.isSome :=
  Keeps.readPast fun past hpast => ⟨rfl, past, rfl, realized_of_follow hpast⟩

theorem left_of_waiting (e : Thrown E) (h : Explained t e) (hstatus : t.status.isSome = false) :
    Left t e :=
  .inl ⟨h, fun h' => by rw [hstatus] at h'; cases h'⟩

theorem tellClient_keeps {rows : List Row} (e : Thrown E) (h : Ends rows t.held (.error e) t)
    (hwriter : t.held.writer = true) : Streams t (tellClient e) (Told rows t.held) := by
  have hexplained := h.explained e rfl
  refine Keeps.bind (readStatus_keeps t) ?_ fun e' u h' => by
    obtain ⟨-, log, hlog, -⟩ := h'
    cases hlog
  rintro log u ⟨rfl, log', hlog, hrealized⟩
  rw [← Except.ok.inj hlog] at hrealized
  cases e with
  | raised x =>
    cases x with
    | sql postgres state =>
      obtain ⟨c, hc⟩ := hexplained
      cases hstate : isLocalTimeout state with
      | true =>
        simp only [hstate, if_true]
        exact Keeps.throw _ (told_of_left h (.inr ⟨rfl, c, postgres, state, hc, hstate⟩))
      | false =>
        simp only [hstate, Bool.false_eq_true, if_false]
        exact Keeps.throw _ (told_of_left h (.inl ⟨⟨c, hc⟩, fun _ h' => by cases h'⟩))
    | io | jsonParse | illegalArgument | invalidQuery | other | fatal =>
      exact Keeps.throw _ (told_of_left h (.inl ⟨hexplained, fun _ h' => by cases h'⟩))
  | queryTimeout =>
    cases hstatus : u.status.isSome with
    | true =>
      simp only [hrealized, hstatus, if_true]
      exact writeMessage_keeps .queryTimeout h hwriter hstatus hexplained
    | false =>
      simp only [hrealized, hstatus, Bool.false_eq_true, if_false]
      exact Keeps.throw _ (told_of_left h (left_of_waiting _ hexplained hstatus))
  | rollbackFailed rollback handling =>
    cases hstatus : u.status.isSome with
    | true =>
      cases hshutdown : handling.isAdminShutdown with
      | true =>
        simp only [hrealized, hstatus, hshutdown, Bool.and_self, if_true]
        refine writeMessage_keeps .queryTerminated h hwriter hstatus ?_
        -- the exception that the rollback was for
        obtain ⟨postgres, rfl⟩ : ∃ postgres, handling = .raised (.sql postgres (some "57P01")) := by
          unfold Thrown.isAdminShutdown at hshutdown
          split at hshutdown
          · rename_i postgres state
            exact ⟨postgres, by rw [of_decide_eq_true hshutdown]⟩
          · cases hshutdown
        obtain ⟨c, hc⟩ := hexplained.2
        exact ⟨c, postgres, hc⟩
      | false =>
        simp only [hshutdown, Bool.and_false, Bool.false_eq_true, if_false]
        exact Keeps.throw _ (told_of_left h (.inl ⟨hexplained, fun _ h' => by
          rw [isSilent, hshutdown] at h'
          cases h'⟩))
    | false =>
      simp only [hrealized, hstatus, Bool.false_and, Bool.false_eq_true, if_false]
      exact Keeps.throw _ (told_of_left h (left_of_waiting _ hexplained hstatus))
  | quietExit => exact Keeps.throw _ (told_of_left h (.inl ⟨hexplained, fun _ _ => rfl⟩))

/-- A write has failed: the client is gone. -/
def ClientGone (s : Stage Row E) : Prop := ∃ c x, (c, x) ∈ s.failures ∧ x.isIo = true

/-- How a query ends. Either an exception is handed over before anything has been written, or the
response is started, and then only a part of the rows is written if the client is gone, if a
message behind it says so, if the database has cut the query off, or if an exception is thrown
on. -/
inductive Settled (rows : List Row) (r : Except (Thrown E) Unit) (t : Stage Row E) : Prop where
  | failed (e : Thrown E) (status : t.status = some (.failed e)) (sent : t.sent = [])
      (quiet : r = .ok ()) (why : Explained t e ∨ (e = .queryTimeout ∧ TimedOut t))
  | started (count : Option Nat) (status : t.status = some (.started count))
      (sent : t.sent <+: pieces rows ∨ EndsInMessage rows t)
      (whole : r = .ok () →
        t.sent = pieces rows ∨ EndsInMessage rows t ∨ ClientGone t ∨ TimedOut t)
      (why : ∀ e, r = .error e → Explained t e ∧ isSilent e = false)

theorem conclude_keeps {rows : List Row} (e : Thrown E) (h : Told rows .nothing (.error e) t) :
    Streams t (conclude e) fun r u => u.held = .nothing ∧ Settled rows r u := by
  have hleft := h.left e rfl
  refine Keeps.bind (readStatus_keeps t) ?_ fun e' u h' => by
    obtain ⟨-, log, hlog, -⟩ := h'
    cases hlog
  rintro log u ⟨rfl, log', hlog, hrealized⟩
  rw [← Except.ok.inj hlog] at hrealized
  rcases h.progress with ⟨hwaiting, -⟩ | ⟨count, hstatus, hsent⟩
  · have hnone : u.status.isSome = false := by rw [hwaiting.1]; rfl
    have hdeliver : Streams u (deliver (.failed e)) fun r v =>
        v.held = .nothing ∧ Settled rows r v := by
      have hallowed : u.allows (.deliver (.failed e)) = true := by
        simp [Stage.allows, Held.allows, hwaiting.1]
      refine Keeps.note _ _ (advance_ok _ .done hallowed) ⟨h.held, ?_⟩
      have hgrows := grows_returned u (.deliver (.failed e)) .done
      refine .failed e rfl hwaiting.2 rfl ?_
      rcases hleft with ⟨hexplained, -⟩ | htimeout
      · exact .inl (explained_of_grows hgrows e hexplained)
      · exact .inr htimeout
    simp only [hrealized, hnone, Bool.false_eq_true, if_false]
    cases e with
    | quietExit =>
      -- the client is gone only after the status has been delivered
      rcases hleft with ⟨hexplained, -⟩ | ⟨hne, -⟩
      · have hsome := hexplained.1
        rw [hnone] at hsome
        cases hsome
      · cases hne
    | raised | rollbackFailed | queryTimeout => exact hdeliver
  · have hsome : u.status.isSome = true := by rw [hstatus]; rfl
    have hsilent (hwhole : ClientGone u ∨ TimedOut u) :
        Streams u (pure () : Step Row E Unit) fun r v => v.held = .nothing ∧ Settled rows r v :=
      Keeps.pure () ⟨h.held, .started count hstatus hsent (fun _ => .inr (.inr hwhole))
        fun e h' => by cases h'⟩
    have hforwarded (hexplained : Explained u e) (he : isSilent e = false) :
        Streams u (throw e : Step Row E Unit) fun r v => v.held = .nothing ∧ Settled rows r v :=
      Keeps.throw e ⟨h.held, .started count hstatus hsent (fun h' => by cases h') fun e' h' =>
        Except.error.inj h' ▸ ⟨hexplained, he⟩⟩
    simp only [hrealized, hsome, if_true]
    rcases hleft with ⟨hexplained, hquiet⟩ | ⟨rfl, htimeout⟩
    · have honly := hquiet hsome
      cases e with
      | raised x => exact hforwarded hexplained rfl
      | rollbackFailed rollback handling =>
        cases hshutdown : handling.isAdminShutdown with
        | true => cases honly hshutdown
        | false =>
          simp only [hshutdown, Bool.false_eq_true, if_false]
          exact hforwarded hexplained hshutdown
      | queryTimeout => cases honly rfl
      | quietExit => exact hsilent (.inl hexplained.2)
    · exact hsilent (.inr htimeout)

/-! ## A whole query -/

theorem told_returned {rows : List Row} {held : Held} {r : Except (Thrown E) Unit} (c : Call Row E)
    (a : Answer) (hc : isPlain c = true) (h : Told rows held r t) :
    Told rows (held.returned c) r (t.returned c a) := by
  rw [returned_of_isPlain c a hc, h.held]
  refine ⟨rfl, fun e he => ?_, h.progress, h.complete⟩
  rcases h.left e he with ⟨hexplained, hquiet⟩ | htimeout
  · exact .inl ⟨explained_of_grows (grows_held t _) e hexplained, hquiet⟩
  · exact .inr htimeout

theorem endsInMessage_threw {rows : List Row} (c : Call Row E) (x : Raised E)
    (h : EndsInMessage rows t) : EndsInMessage rows (t.threw c x) := by
  obtain ⟨done, m, hpart, hsent, hwarrants⟩ := h
  refine ⟨done, m, hpart, hsent, ?_⟩
  cases m with
  | queryTimeout => exact hwarrants
  | queryTerminated =>
    obtain ⟨c', postgres, hmem⟩ := hwarrants
    exact ⟨c', postgres, List.mem_cons_of_mem _ hmem⟩

/-- An exception from the writer counts only if there is no other one. -/
theorem told_threw {rows : List Row} {held : Held} {r : Except (Thrown E) Unit} (c : Call Row E)
    (x : Raised E) (h : Told rows held r t) :
    Told rows (held.threw c) (Action.settle r (.error (.raised x) : Except (Thrown E) Answer))
      (t.threw c x) := by
  have hsent (hpart : t.sent <+: pieces rows ∨ EndsInMessage rows t) :
      t.sent <+: pieces rows ∨ EndsInMessage rows (t.threw c x) :=
    hpart.imp_right (endsInMessage_threw c x)
  refine ⟨by rw [← h.held]; rfl, fun e he => ?_, ?_, fun h' => ?_⟩
  · cases r with
    | ok a =>
      rw [← Except.error.inj he]
      exact .inl ⟨explained_threw t c x, fun _ h' => by cases h'⟩
    | error e' =>
      rw [← Except.error.inj he]
      rcases h.left e' rfl with ⟨hexplained, hquiet⟩ | ⟨hne, c', postgres, state, hmem, hstate⟩
      · exact .inl ⟨explained_of_grows (grows_threw t c x) e' hexplained, hquiet⟩
      · exact .inr ⟨hne, c', postgres, state, List.mem_cons_of_mem _ hmem, hstate⟩
  · rcases h.progress with ⟨hwaiting, e, rfl⟩ | ⟨count, hstatus, hpart⟩
    · exact .inl ⟨hwaiting, e, rfl⟩
    · exact .inr ⟨count, hstatus, hsent hpart⟩
  · cases r <;> cases h'

theorem serializeQueryResponse_keeps (context : Context) (rows : List Row) :
    Streams (Stage.start : Stage Row E) (serializeQueryResponse context rows) fun r t =>
      t.held = .nothing ∧ Settled rows r t := by
  have hwaiting : Waiting (Stage.start : Stage Row E) := ⟨rfl, rfl⟩
  refine Keeps.tryCatch (P := Told rows .nothing) ?_ (fun e t h => conclude_keeps e h) ?_
  · refine Keeps.bindCall _ _ (fun a => ⟨_, advance_ok .openWriter a rfl, ?_⟩) fun x =>
      ⟨_, advance_error .openWriter x rfl, ?_⟩
    · refine Keeps.finallyDo (P := Told rows { Held.nothing with writer := true }) ?_
        fun r t h => ?_
      · refine Keeps.tryCatch (P := Ends rows { Held.nothing with writer := true }) ?_ ?_ ?_
        · refine withDbConnection_keeps hwaiting rfl rfl rfl fun t ht hheld => ?_
          refine whileRegistered_keeps context.monitored ht (by rw [hheld]; rfl)
            (by rw [hheld]; rfl) fun u hu hheld' => ?_
          refine withDbTransaction_keeps hu (by rw [hheld', hheld]; rfl) (by rw [hheld', hheld]; rfl)
            (by rw [hheld', hheld]; rfl) fun v hv hheld'' => ?_
          exact runQuery_keeps context.limited rows hv (by rw [hheld'', hheld', hheld]; rfl)
            (by rw [hheld'']) (by rw [hheld'', hheld', hheld]; rfl)
            (by rw [hheld'', hheld', hheld]; rfl)
        · intro e t h
          have htold := tellClient_keeps (t := t) e (h.held ▸ h) (by rw [h.held])
          rw [h.held] at htold
          exact htold
        · exact fun ⟨⟩ t h => told_of_ok h
      · have hallowed : t.allows .closeWriter = true := by
          simp [Stage.allows, Held.allows, h.held, Held.nothing]
        refine Keeps.call _ _ fun o => ?_
        cases o with
        | ok a =>
          refine ⟨_, advance_ok _ a hallowed, ?_⟩
          have hreturned := told_returned .closeWriter a rfl h
          cases r <;> exact hreturned
        | error x => exact ⟨_, advance_error _ x hallowed, told_threw .closeWriter x h⟩
    · refine ⟨rfl, fun e he => ?_, .inl ⟨hwaiting, _, rfl⟩, fun h' => by cases h'⟩
      rw [← Except.error.inj he]
      exact .inl ⟨explained_threw _ _ x, fun _ h' => by cases h'⟩
  · rintro ⟨⟩ t h
    refine ⟨h.held, ?_⟩
    rcases h.progress with ⟨-, e, he⟩ | ⟨count, hstatus, hsent⟩
    · cases he
    · exact .started count hstatus hsent
        (fun _ => (h.complete rfl).imp_right .inl) fun e he => by cases he

/-- Whatever is thrown, the query makes each of its calls only while it holds what the call needs,
and in the end it holds nothing, and the status has been delivered. -/
theorem serializeQueryResponse_releases (env : Environment (Call Row E) Answer (Raised E))
    (context : Context) (rows : List Row) :
    ∃ t, follow advance Stage.start ((serializeQueryResponse context rows).run env []).2 = some t ∧
      t.held = .nothing ∧ t.status.isSome = true := by
  obtain ⟨t, hfollow, hheld, hsettled⟩ := (serializeQueryResponse_keeps context rows).fromStart env
  refine ⟨t, hfollow, hheld, ?_⟩
  cases hsettled with
  | failed e status => rw [status]; rfl
  | started count status => rw [status]; rfl

/-- Where no call fails and there is time, all rows are written. -/
theorem serializeQueryResponse_whole (env : Environment (Call Row E) Answer (Raised E))
    (context : Context) (rows : List Row) (t : Stage Row E)
    (hfollow : follow advance Stage.start ((serializeQueryResponse context rows).run env []).2 =
      some t) (hfailures : t.failures = []) (hlate : t.late = false) :
    ((serializeQueryResponse context rows).run env []).1 = .ok () ∧ t.sent = pieces rows := by
  obtain ⟨t', hfollow', -, hsettled⟩ := (serializeQueryResponse_keeps context rows).fromStart env
  obtain rfl : t' = t := Option.some.inj (hfollow'.symm.trans hfollow)
  have hnone := not_explained hlate hfailures
  have htimed : ¬ TimedOut t' := by simp [TimedOut, hfailures]
  have hgone : ¬ ClientGone t' := by simp [ClientGone, hfailures]
  cases hsettled with
  | failed e status sent quiet why => exact absurd why (by simp [hnone e, htimed])
  | started count status sent whole why =>
    have hr : ((serializeQueryResponse context rows).run env []).1 = .ok () := by
      cases hr : ((serializeQueryResponse context rows).run env []).1 with
      | ok u => rfl
      | error e => exact absurd (why e hr).1 (hnone e)
    refine ⟨hr, ?_⟩
    rcases whole hr with h | ⟨done, m, -, -, hwarrants⟩ | h | h
    · exact h
    · cases m with
      | queryTimeout => simp [Warrants, hlate] at hwarrants
      | queryTerminated => simp [Warrants, hfailures] at hwarrants
    · exact absurd h hgone
    · exact absurd h htimed

end OpenVoxDB.Streaming
