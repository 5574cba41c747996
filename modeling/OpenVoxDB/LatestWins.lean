import Mathlib
import OpenVoxDB.Run

/-!
# Registers that keep the latest write

A register takes a write unless what it holds is later. What it records of a
stamp may be rounded, so the stamp of a write is compared with a rounded stamp
of an earlier one. Leaving out a write that another one supersedes, before or
after it in the sequence, changes nothing in the end.
-/

namespace OpenVoxDB.LatestWins

variable {α β κ τ : Type} [LinearOrder τ]

/-- The stamps of writes and what a register records of them. -/
structure Stamping (α τ : Type) [LinearOrder τ] where
  stamp : α → τ
  recorded : α → τ
  recorded_le : ∀ x y, recorded x ≤ stamp y → recorded x ≤ recorded y
  le_recorded : ∀ x y, stamp y < recorded x → recorded y ≤ recorded x

/-- A write to one register: refused when what is held is recorded as later. -/
def settle (S : Stamping α τ) (held : Option α) (w : α) : Option α :=
  match held with
  | some h => if S.stamp w < S.recorded h then some h else some w
  | none => some w

def settleAll (S : Stamping α τ) (held : Option α) (ws : List α) : Option α :=
  ws.foldl (settle S) held

@[simp] theorem settleAll_nil (S : Stamping α τ) (held : Option α) : settleAll S held [] = held :=
  rfl
@[simp] theorem settleAll_cons (S : Stamping α τ) (held : Option α) (w : α) (ws : List α) :
    settleAll S held (w :: ws) = settleAll S (settle S held w) ws := rfl
theorem settleAll_append (S : Stamping α τ) (held : Option α) (ws vs : List α) :
    settleAll S held (ws ++ vs) = settleAll S (settleAll S held ws) vs := List.foldl_append

/-- The register holds something recorded no earlier than `m`. -/
def AtLeast (S : Stamping α τ) (m : α) (held : Option α) : Prop :=
  ∃ h, held = some h ∧ S.recorded m ≤ S.recorded h

theorem settle_atLeast_self (S : Stamping α τ) (held : Option α) (m : α) :
    AtLeast S m (settle S held m) := by
  cases held with
  | none => exact ⟨m, rfl, le_rfl⟩
  | some h =>
    by_cases hlt : S.stamp m < S.recorded h
    · exact ⟨h, if_pos hlt, S.le_recorded h m hlt⟩
    · exact ⟨m, if_neg hlt, le_rfl⟩

theorem settle_atLeast (S : Stamping α τ) (held : Option α) (m w : α) (h : AtLeast S m held) :
    AtLeast S m (settle S held w) := by
  obtain ⟨x, rfl, hx⟩ := h
  by_cases hlt : S.stamp w < S.recorded x
  · exact ⟨x, if_pos hlt, hx⟩
  · exact ⟨w, if_neg hlt, hx.trans (S.recorded_le x w (not_lt.mp hlt))⟩

theorem settleAll_atLeast (S : Stamping α τ) (ws : List α) (held : Option α) (m : α)
    (h : AtLeast S m held) : AtLeast S m (settleAll S held ws) := by
  induction ws generalizing held with
  | nil => exact h
  | cons w ws ih => exact ih _ (settle_atLeast S held m w h)

/-- A register that has seen `m` is never recorded earlier than `m` again. -/
theorem settleAll_atLeast_of_mem (S : Stamping α τ) (ws : List α) (held : Option α) (m : α)
    (h : m ∈ ws) : AtLeast S m (settleAll S held ws) := by
  induction ws generalizing held with
  | nil => cases h
  | cons w ws ih =>
    rcases List.mem_cons.mp h with rfl | h
    · exact settleAll_atLeast S ws _ m (settle_atLeast_self S held m)
    · exact ih _ h

/-- A write older than one the register has seen is refused. -/
theorem settle_of_atLeast (S : Stamping α τ) (held : Option α) (m c : α)
    (h : AtLeast S m held) (hc : S.stamp c < S.recorded m) : settle S held c = held := by
  obtain ⟨x, rfl, hx⟩ := h
  exact if_pos (hc.trans_le hx)

/-- Two registers, the first of which has also seen `c`. -/
def Agree (S : Stamping α τ) (c : α) (a b : Option α) : Prop :=
  a = b ∨ a = some c ∧ ∀ h, b = some h → S.recorded h ≤ S.recorded c

theorem agree_settle_left (S : Stamping α τ) (held : Option α) (c : α) :
    Agree S c (settle S held c) held := by
  cases held with
  | none => exact .inr ⟨rfl, nofun⟩
  | some h =>
    by_cases hlt : S.stamp c < S.recorded h
    · exact .inl (if_pos hlt)
    · refine .inr ⟨if_neg hlt, fun x hx => ?_⟩
      cases hx
      exact S.recorded_le h c (not_lt.mp hlt)

theorem agree_settle (S : Stamping α τ) (a b : Option α) (c w : α) (h : Agree S c a b) :
    Agree S c (settle S a w) (settle S b w) := by
  obtain rfl | ⟨rfl, hb⟩ := h
  · exact .inl rfl
  · by_cases hlt : S.stamp w < S.recorded c
    · refine .inr ⟨if_pos hlt, fun x hx => ?_⟩
      cases b with
      | none =>
        cases hx
        exact S.le_recorded c _ hlt
      | some h =>
        by_cases hlt' : S.stamp w < S.recorded h
        · rw [settle, if_pos hlt'] at hx
          exact hb x hx
        · rw [settle, if_neg hlt'] at hx
          cases hx
          exact S.le_recorded c _ hlt
    · -- what passes the later of two registers passes both
      refine .inl ?_
      cases b with
      | none => exact if_neg hlt
      | some h =>
        have hlt' : ¬ S.stamp w < S.recorded h := fun hw => hlt (hw.trans_le (hb h rfl))
        rw [settle, settle, if_neg hlt, if_neg hlt']

theorem settle_eq_of_agree (S : Stamping α τ) (a b : Option α) (c m : α) (h : Agree S c a b)
    (hm : S.recorded c ≤ S.stamp m) : settle S a m = settle S b m := by
  obtain rfl | ⟨rfl, hb⟩ := h
  · rfl
  · cases b with
    | none => exact if_neg (not_lt.mpr hm)
    | some h =>
      rw [settle, settle, if_neg (not_lt.mpr hm),
        if_neg (not_lt.mpr ((hb h rfl).trans hm))]

theorem settleAll_eq_of_agree (S : Stamping α τ) (ws : List α) (a b : Option α) (c m : α)
    (h : Agree S c a b) (hmem : m ∈ ws) (hm : S.recorded c ≤ S.stamp m) :
    settleAll S a ws = settleAll S b ws := by
  induction ws generalizing a b with
  | nil => cases hmem
  | cons w ws ih =>
    rcases List.mem_cons.mp hmem with rfl | hmem
    · rw [settleAll_cons, settleAll_cons, settle_eq_of_agree S a b c _ h hm]
    · exact ih _ _ (agree_settle S a b c w h) hmem

/-- A write that an earlier one supersedes can be left out. -/
theorem settleAll_drop_of_before (S : Stamping α τ) (held : Option α) (pre post : List α)
    (c m : α) (hmem : m ∈ pre) (hc : S.stamp c < S.recorded m) :
    settleAll S held (pre ++ c :: post) = settleAll S held (pre ++ post) := by
  rw [settleAll_append, settleAll_append, settleAll_cons,
    settle_of_atLeast S _ m c (settleAll_atLeast_of_mem S pre held m hmem) hc]

/-- A write that a later one supersedes can be left out. -/
theorem settleAll_drop_of_after (S : Stamping α τ) (held : Option α) (pre post : List α)
    (c m : α) (hmem : m ∈ post) (hm : S.recorded c ≤ S.stamp m) :
    settleAll S held (pre ++ c :: post) = settleAll S held (pre ++ post) := by
  rw [settleAll_append, settleAll_append, settleAll_cons]
  exact settleAll_eq_of_agree S post _ _ c m (agree_settle_left S _ c) hmem hm

section Keyed

/-- A write is superseded by a kept one of its register, before or after it. -/
def Superseded (S : Stamping α τ) (entry : β → κ × α) (kept : β → Bool) (pre : List β) (c : β)
    (post : List β) : Prop :=
  (∃ m ∈ pre, kept m = true ∧ (entry m).1 = (entry c).1 ∧
    S.stamp (entry c).2 < S.recorded (entry m).2) ∨
  (∃ m ∈ post, kept m = true ∧ (entry m).1 = (entry c).1 ∧
    S.recorded (entry c).2 ≤ S.stamp (entry m).2)

theorem superseded_of_subset (S : Stamping α τ) (entry : β → κ × α) (kept : β → Bool)
    (pre pre' post post' : List β) (c : β) (hpre : ∀ m ∈ pre, kept m = true → m ∈ pre')
    (hpost : ∀ m ∈ post, kept m = true → m ∈ post') (h : Superseded S entry kept pre c post) :
    Superseded S entry kept pre' c post' := by
  obtain ⟨m, hm, hkept, hrest⟩ | ⟨m, hm, hkept, hrest⟩ := h
  · exact .inl ⟨m, hpre m hm hkept, hkept, hrest⟩
  · exact .inr ⟨m, hpost m hm hkept, hkept, hrest⟩

variable [DecidableEq κ]

/-- A write to one of many registers. -/
def settleAt (S : Stamping α τ) (held : κ → Option α) (w : κ × α) : κ → Option α :=
  Function.update held w.1 (settle S (held w.1) w.2)

def settleAllAt (S : Stamping α τ) (held : κ → Option α) (ws : List (κ × α)) : κ → Option α :=
  ws.foldl (settleAt S) held

/-- The writes to one register. -/
def writesTo (k : κ) (ws : List (κ × α)) : List α :=
  ws.filterMap fun w => if w.1 = k then some w.2 else none

theorem mem_writesTo (k : κ) (ws : List (κ × α)) (x : α) :
    x ∈ writesTo k ws ↔ (k, x) ∈ ws := by
  simp only [writesTo, List.mem_filterMap]
  constructor
  · rintro ⟨⟨k', y⟩, hmem, h⟩
    by_cases hk : k' = k
    · subst hk
      simp only [if_pos, Option.some.injEq] at h
      rwa [← h]
    · simp [hk] at h
  · intro h
    exact ⟨(k, x), h, if_pos rfl⟩

theorem settleAllAt_apply (S : Stamping α τ) (ws : List (κ × α)) (held : κ → Option α) (k : κ) :
    settleAllAt S held ws k = settleAll S (held k) (writesTo k ws) := by
  induction ws generalizing held with
  | nil => rfl
  | cons w ws ih =>
    show settleAllAt S (settleAt S held w) ws k = _
    rw [ih]
    by_cases hk : w.1 = k
    · subst hk
      simp [writesTo, settleAt]
    · simp [writesTo, settleAt, hk, Function.update_of_ne (Ne.symm hk)]

theorem settleAllAt_drop (S : Stamping α τ) (entry : β → κ × α) (kept : β → Bool)
    (held : κ → Option α) (pre post : List β) (c : β) (h : Superseded S entry kept pre c post) :
    settleAllAt S held ((pre ++ c :: post).map entry) =
      settleAllAt S held ((pre ++ post).map entry) := by
  funext k
  rw [settleAllAt_apply, settleAllAt_apply]
  simp only [List.map_append, List.map_cons, writesTo, List.filterMap_append,
    List.filterMap_cons]
  by_cases hk : (entry c).1 = k
  · simp only [hk, if_true]
    have hin : ∀ (m : β) (l : List β), m ∈ l → (entry m).1 = (entry c).1 →
        (entry m).2 ∈ writesTo k (l.map entry) := by
      intro m l hm hkey
      refine (mem_writesTo k _ _).mpr (List.mem_map.mpr ⟨m, hm, ?_⟩)
      rw [← hk, ← hkey]
    obtain ⟨m, hm, -, hkey, hlt⟩ | ⟨m, hm, -, hkey, hle⟩ := h
    · exact settleAll_drop_of_before S _ _ _ _ _ (hin m pre hm hkey) hlt
    · exact settleAll_drop_of_after S _ _ _ _ _ (hin m post hm hkey) hle
  · simp only [hk, if_false]

/-- Leaving out every write that a kept one supersedes leaves the same registers. -/
theorem settleAllAt_filter (S : Stamping α τ) (entry : β → κ × α) (kept : β → Bool)
    (held : κ → Option α) (l : List β)
    (h : ∀ pre c post, l = pre ++ c :: post → kept c = false →
      Superseded S entry kept pre c post) :
    settleAllAt S held ((l.filter kept).map entry) = settleAllAt S held (l.map entry) := by
  -- the writes before the one looked at have been filtered already
  suffices hgen : ∀ (post pre : List β), l = pre ++ post →
      settleAllAt S held ((pre.filter kept ++ post.filter kept).map entry) =
        settleAllAt S held ((pre.filter kept ++ post).map entry) from hgen l [] rfl
  intro post
  induction post with
  | nil =>
    intro pre _
    rfl
  | cons c post ih =>
    intro pre hl
    have hnext := ih (pre ++ [c]) (by rw [hl, List.append_assoc, List.singleton_append])
    rw [List.filter_append] at hnext
    cases hc : kept c with
    | true =>
      rw [List.filter_cons_of_pos hc] at hnext ⊢
      simpa using hnext
    | false =>
      have hsup := superseded_of_subset S entry kept pre (pre.filter kept) post post c
        (fun m hm hk => List.mem_filter.mpr ⟨hm, hk⟩) (fun m hm _ => hm) (h pre c post hl hc)
      rw [List.filter_cons_of_neg (by simp [hc]),
        settleAllAt_drop S entry kept held _ _ c hsup]
      rw [List.filter_cons_of_neg (by simp [hc])] at hnext
      simpa using hnext

end Keyed

section AnyOrder

/-- A write to a register that refuses it for what it holds. -/
def offer (refuses : α → α → Prop) [DecidableRel refuses] (held : Option α) (w : α) : Option α :=
  match held with
  | some h => if refuses h w then some h else some w
  | none => some w

variable (refuses : α → α → Prop) [DecidableRel refuses]

theorem offer_cases (held : Option α) (w : α) :
    offer refuses held w = some w ∨ ∃ h, held = some h ∧ refuses h w ∧
      offer refuses held w = some h := by
  cases held with
  | none => exact .inl rfl
  | some h =>
    by_cases hr : refuses h w
    · exact .inr ⟨h, rfl, hr, if_pos hr⟩
    · exact .inl (if_neg hr)

theorem offer_of_refuses (h w : α) (hr : refuses h w) : offer refuses (some h) w = some h :=
  if_pos hr

theorem offer_of_not_refuses (held : Option α) (w : α) (h : ∀ x, held = some x → ¬ refuses x w) :
    offer refuses held w = some w := by
  rcases offer_cases refuses held w with he | ⟨x, hx, hr, -⟩
  · exact he
  · exact absurd hr (h x hx)

/-- What a register holds has been written to it. -/
theorem foldl_offer_mem (ws : List α) (held : Option α) (x : α)
    (h : ws.foldl (offer refuses) held = some x) : held = some x ∨ x ∈ ws := by
  induction ws generalizing held with
  | nil => exact .inl h
  | cons w ws ih =>
    rcases ih _ h with hheld | hmem
    · rcases offer_cases refuses held w with he | ⟨y, hy, -, he⟩
      · rw [he, Option.some.injEq] at hheld
        exact .inr (hheld ▸ List.mem_cons_self)
      · rw [he] at hheld
        exact .inl (hy.trans hheld)
    · exact .inr (List.mem_cons_of_mem _ hmem)

theorem foldl_offer_stays (ws : List α) (m : α) (h : ∀ w ∈ ws, w = m ∨ refuses m w) :
    ws.foldl (offer refuses) (some m) = some m := by
  induction ws with
  | nil => rfl
  | cons w ws ih =>
    have hw : offer refuses (some m) w = some m := by
      rcases h w List.mem_cons_self with rfl | hr
      · rcases offer_cases refuses (some w) w with he | ⟨y, hy, -, he⟩
        · exact he
        · rw [he, hy]
      · exact if_pos hr
    rw [List.foldl_cons, hw]
    exact ih fun v hv => h v (List.mem_cons_of_mem _ hv)

/-- A write that none of the others is refused before, and that refuses each of them, is what
the register holds in the end, in whatever order and however often they are made. -/
theorem foldl_offer_eq (ws : List α) (held : Option α) (m : α) (hm : m ∈ ws)
    (hheld : ∀ x, held = some x → x = m ∨ ¬ refuses x m)
    (h : ∀ w ∈ ws, w = m ∨ refuses m w ∧ ¬ refuses w m) :
    ws.foldl (offer refuses) held = some m := by
  induction ws generalizing held with
  | nil => cases hm
  | cons w ws ih =>
    rw [List.foldl_cons]
    have hrest : ∀ v ∈ ws, v = m ∨ refuses m v ∧ ¬ refuses v m :=
      fun v hv => h v (List.mem_cons_of_mem _ hv)
    by_cases hwm : w = m
    · subst hwm
      have hnow : offer refuses held w = some w := by
        rcases offer_cases refuses held w with he | ⟨y, hy, hr, he⟩
        · exact he
        · rcases hheld y hy with rfl | hn
          · exact he
          · exact absurd hr hn
      rw [hnow]
      exact foldl_offer_stays refuses ws w fun v hv => (hrest v hv).imp_right And.left
    · refine ih _ ((List.mem_cons.mp hm).resolve_left (Ne.symm hwm)) (fun x hx => ?_) hrest
      rcases offer_cases refuses held w with he | ⟨y, hy, -, he⟩
      · rw [he, Option.some.injEq] at hx
        rw [← hx]
        exact .inr ((h w List.mem_cons_self).resolve_left hwm).2
      · rw [he] at hx
        exact hheld x (hy.trans hx)

/-- A run whose steps offer some of its events to a register, which the state tracks,
tracks in the end what the register then holds. -/
theorem run_tracks {σ ε : Type} (step : σ → ε → σ) (P : σ → ε → Prop) (select : ε → Option α)
    (Tracks : σ → Option α → Prop)
    (hstep : ∀ s e held, P s e → Tracks s held →
      Tracks (step s e) ((select e).toList.foldl (offer refuses) held))
    (es : List ε) (s : σ) (held : Option α) (hes : Always step P s es) (hs : Tracks s held) :
    Tracks (run step s es) ((es.filterMap select).foldl (offer refuses) held) := by
  induction es generalizing s held with
  | nil => exact hs
  | cons e es ih =>
    obtain ⟨he, hrest⟩ := hes
    have hnext := ih _ _ hrest (hstep s e held he hs)
    cases hsel : select e with
    | none =>
      rw [List.filterMap_cons_none hsel]
      rw [hsel] at hnext
      exact hnext
    | some w =>
      rw [List.filterMap_cons_some hsel, List.foldl_cons]
      rw [hsel] at hnext
      exact hnext

end AnyOrder

end OpenVoxDB.LatestWins
