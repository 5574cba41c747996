import Mathlib
import OpenVoxDB.DistinctEvents
import OpenVoxDB.LegacyParams

/-!
# What distinct resources are

The events returned are those that have the latest timestamp of their group and
satisfy the query. They are the most recent events that satisfy it, one of each
resource, where no two most recent events tie and where restricting the groups
to the latest reports, which only a query that is nothing else asks for, makes no
difference.
-/

namespace OpenVoxDB.DistinctEvents

open LegacyQueries Placeholders

variable {E ρ : Type} (sem : Semantics E ρ) (db : Database ρ) (w : Window)

/-! ## The most recent events -/

/-- An event of the window that is among those of `S` has the key and the timestamp of `e`, and
none of them with that key is newer. -/
def MostRecentAmong (S : Event ρ → Prop) (e : Event ρ) : Prop :=
  (∃ g ∈ db.events, w.contains g = true ∧ S g ∧ g.key = e.key ∧ g.timestamp = e.timestamp) ∧
    ∀ f ∈ db.events, w.contains f = true → S f → f.key = e.key → f.timestamp ≤ e.timestamp

theorem latestTimestamp_eq_some_iff (events : List (Event ρ)) (k : Key) (t : Int) :
    latestTimestamp events k = some t ↔
      (∃ g ∈ events, g.key = k ∧ g.timestamp = t) ∧ ∀ f ∈ events, f.key = k → f.timestamp ≤ t := by
  rw [latestTimestamp, List.max?_eq_some_iff]
  simp only [List.mem_map, List.mem_filter, decide_eq_true_eq, forall_exists_index, and_imp]
  constructor
  · rintro ⟨⟨g, ⟨hg, hkey⟩, rfl⟩, hall⟩
    exact ⟨⟨g, hg, hkey, rfl⟩, fun f hf hfkey => hall _ f hf hfkey rfl⟩
  · rintro ⟨⟨g, hg, hkey, rfl⟩, hall⟩
    refine ⟨⟨g, ⟨hg, hkey⟩, rfl⟩, ?_⟩
    rintro _ f hf hfkey rfl
    exact hall f hf hfkey

theorem mem_candidates (clause : Option (Condition E)) (e : Event ρ) :
    e ∈ candidates sem db w clause ↔
      e ∈ db.events ∧ w.contains e = true ∧ holds sem db e clause = true := by
  simp [candidates]

theorem mem_latestEvents (clause : Option (Condition E)) (e : Event ρ) :
    e ∈ latestEvents sem db w clause ↔ e ∈ db.events ∧
      MostRecentAmong db w (fun f => holds sem db f clause = true) e := by
  simp only [latestEvents, List.mem_flatMap, List.mem_dedup, List.mem_map, List.mem_filter,
    Bool.and_eq_true, decide_eq_true_eq, latestTimestamp_eq_some_iff, mem_candidates,
    MostRecentAmong]
  constructor
  · rintro ⟨k, -, he, rfl, ⟨g, ⟨hg, hgw, hgc⟩, hkey, ht⟩, hall⟩
    exact ⟨he, ⟨g, hg, hgw, hgc, hkey, ht⟩, fun f hf hfw hfc hfkey => hall f ⟨hf, hfw, hfc⟩ hfkey⟩
  · rintro ⟨he, ⟨g, hg, hgw, hgc, hkey, ht⟩, hall⟩
    exact ⟨e.key, ⟨g, ⟨hg, hgw, hgc⟩, hkey⟩, he, rfl, ⟨g, ⟨hg, hgw, hgc⟩, hkey, ht⟩,
      fun f hf hfkey => hall f hf.1 hf.2.1 hf.2.2 hfkey⟩

/-- An event is joined to one group only. -/
theorem nodup_latestEvents (clause : Option (Condition E)) :
    (latestEvents sem db w clause).Nodup := by
  rw [latestEvents, List.nodup_flatMap]
  constructor
  · intro k hk
    exact db.nodup.filter _
  · apply (List.nodup_dedup _).imp
    intro j k hne e hj hk
    have hj := (List.mem_filter.mp hj).2
    have hk := (List.mem_filter.mp hk).2
    simp only [Bool.and_eq_true, decide_eq_true_eq] at hj hk
    exact hne (hj.1.symm.trans hk.1)

theorem mem_distinctEvents (c : Compiled E) (e : Event ρ) :
    e ∈ distinctEvents sem db w c ↔ (e ∈ db.events ∧
      MostRecentAmong db w (fun f => holds sem db f c.latestReportClause = true) e) ∧
      holds sem db e c.condition = true := by
  rw [distinctEvents, List.mem_filter, mem_latestEvents]

theorem nodup_distinctEvents (c : Compiled E) : (distinctEvents sem db w c).Nodup :=
  (nodup_latestEvents sem db w c.latestReportClause).filter _

/-- Restricting the events leaves those most recent that are left. -/
theorem mostRecentAmong_of_mem (S : Event ρ → Prop) (e : Event ρ) (he : e ∈ db.events)
    (hw : w.contains e = true) (hS : S e)
    (h : ∀ f ∈ db.events, w.contains f = true → S f → f.key = e.key → f.timestamp ≤ e.timestamp) :
    MostRecentAmong db w S e :=
  ⟨⟨e, he, hw, hS, rfl, rfl⟩, h⟩

/-- What is most recent in the window is in the window. -/
theorem MostRecentAmong.contains (S : Event ρ → Prop) (e : Event ρ)
    (h : MostRecentAmong db w S e) : w.contains e = true := by
  obtain ⟨⟨g, -, hgw, -, -, ht⟩, -⟩ := h
  simpa [Window.contains, ht] using hgw

/-! ## Queries for the latest reports -/

mutual

/-- What a term says of `latest_report?` is that it is true wherever the term is true, or false:
for `polarity` true or false. -/
def restricts (polarity : Bool) : Term → Bool
  | .equal (.field field) value =>
    dashesToUnderscores field = "latest_report?" && value.truthy == polarity
  | .and terms => if polarity then anyRestricts polarity terms else allRestrict polarity terms
  | .or terms => if polarity then allRestrict polarity terms else anyRestricts polarity terms
  | .not terms => allRestrict (!polarity) terms
  | _ => false

def anyRestricts (polarity : Bool) : List Term → Bool
  | [] => false
  | term :: terms => restricts polarity term || anyRestricts polarity terms

def allRestrict (polarity : Bool) : List Term → Bool
  | [] => true
  | term :: terms => restricts polarity term && allRestrict polarity terms

end

/-- The query requires `latest_report?`. -/
def requiresLatest (q : Term) : Bool := restricts true q

theorem truths_eq_map (e : Event ρ) (conditions : List (Condition E)) :
    truths sem db e conditions = conditions.map (truth sem db e) := by
  induction conditions with
  | nil => rfl
  | cons condition conditions ih => rw [truths, ih, List.map_cons]

/-- The operands of a boolean operator are as true as the terms. -/
theorem truths_operands (e : Event ρ) (cs : List (Compiled E)) :
    truths sem db e (cs.map Compiled.operand) = cs.map fun c => truth sem db e c.operand := by
  rw [truths_eq_map, List.map_map]
  rfl

theorem latestReport_of_restricts (readers : Readers) (polarity : Bool) (e : Event ρ) (path : Path)
    (value : Json) (c : Compiled E) (hc : compileTerm readers .event (.equal path value) = some c)
    (hr : restricts polarity (.equal path value) = true)
    (hv : truth sem db e c.operand = .ofBool polarity) : db.latest e = true := by
  cases path with
  | field field =>
    simp only [restricts, Bool.and_eq_true, decide_eq_true_eq, beq_iff_eq] at hr
    obtain ⟨hfield, rfl⟩ := hr
    have hc : compileResourceEventEquality field value = some c := hc
    simp only [compileResourceEventEquality, hfield] at hc
    obtain rfl := Option.some.inj hc
    cases hb : value.truthy <;> cases hl : db.latest e <;>
      simp [Compiled.operand, Compiled.condition, truth, hb, hl, Truth.ofBool] at hv ⊢
  | nodeActive => simp [restricts] at hr
  | parameter name => simp [restricts] at hr

mutual

/-- A term that requires the latest reports holds of their events only. -/
theorem latest_of_restricts (readers : Readers) (polarity : Bool) (e : Event ρ) (term : Term)
    (c : Compiled E) (hc : compileTerm readers .event term = some c)
    (hr : restricts polarity term = true)
    (hv : truth sem db e c.operand = .ofBool polarity) : db.latest e = true := by
  cases term with
  | equal path value => exact latestReport_of_restricts sem db readers polarity e path value c hc hr hv
  | and terms =>
    obtain ⟨cs, hcs, hc⟩ := Option.bind_eq_some_iff.mp hc
    rw [Compiled.boolean] at hc
    split at hc
    · cases hc
    obtain rfl := Option.some.inj hc
    have hv : Truth.all (cs.map fun c => truth sem db e c.operand) = .ofBool polarity := by
      rw [← truths_operands]
      exact hv
    cases polarity with
    | true =>
      obtain ⟨d, hd, hlatest⟩ := latest_of_anyRestricts readers true e terms cs hcs hr
      exact hlatest ((Truth.all_eq_yes_iff _).mp hv _ (List.mem_map_of_mem hd))
    | false =>
      obtain ⟨t, ht, hno⟩ := (Truth.all_eq_no_iff _).mp hv
      obtain ⟨d, hd, rfl⟩ := List.mem_map.mp ht
      exact latest_of_allRestrict readers false e terms cs hcs hr d hd hno
  | or terms =>
    obtain ⟨cs, hcs, hc⟩ := Option.bind_eq_some_iff.mp hc
    rw [Compiled.boolean] at hc
    split at hc
    · cases hc
    obtain rfl := Option.some.inj hc
    have hv : Truth.any (cs.map fun c => truth sem db e c.operand) = .ofBool polarity := by
      rw [← truths_operands]
      exact hv
    cases polarity with
    | true =>
      obtain ⟨t, ht, hyes⟩ := (Truth.any_eq_yes_iff _).mp hv
      obtain ⟨d, hd, rfl⟩ := List.mem_map.mp ht
      exact latest_of_allRestrict readers true e terms cs hcs hr d hd hyes
    | false =>
      obtain ⟨d, hd, hlatest⟩ := latest_of_anyRestricts readers false e terms cs hcs hr
      exact hlatest ((Truth.any_eq_no_iff _).mp hv _ (List.mem_map_of_mem hd))
  | not terms =>
    obtain ⟨cs, hcs, hc⟩ := Option.bind_eq_some_iff.mp hc
    split at hc
    · next d =>
      have hd := latest_of_allRestrict readers (!polarity) e terms _ hcs hr d List.mem_cons_self
      cases d with
      | filter condition params clause =>
        obtain rfl := Option.some.inj hc
        apply hd
        rw [← Truth.not_ofBool, ← hv]
        exact (Truth.not_not _).symm
      | select sql params => cases hc
    · cases hc
  | empty => simp [restricts] at hr
  | regexp path pattern => simp [restricts] at hr
  | inequality op path value => simp [restricts] at hr
  | extract field subquery => simp [restricts] at hr
  | isIn field subquery => simp [restricts] at hr
  | selectResources query => simp [restricts] at hr
  | selectFacts query => simp [restricts] at hr

theorem latest_of_anyRestricts (readers : Readers) (polarity : Bool) (e : Event ρ)
    (terms : List Term) (cs : List (Compiled E))
    (hcs : compileTerms readers .event terms = some cs)
    (hr : anyRestricts polarity terms = true) :
    ∃ c ∈ cs, truth sem db e c.operand = .ofBool polarity → db.latest e = true := by
  cases terms with
  | nil => cases hr
  | cons term terms =>
    obtain ⟨c, hc, hcs⟩ := Option.bind_eq_some_iff.mp hcs
    obtain ⟨rest, hrest, rfl⟩ := Option.map_eq_some_iff.mp hcs
    rw [anyRestricts, Bool.or_eq_true] at hr
    cases hr with
    | inl hr =>
      exact ⟨c, List.mem_cons_self, latest_of_restricts readers polarity e term c hc hr⟩
    | inr hr =>
      obtain ⟨d, hd, hlatest⟩ := latest_of_anyRestricts readers polarity e terms rest hrest hr
      exact ⟨d, List.mem_cons_of_mem _ hd, hlatest⟩

theorem latest_of_allRestrict (readers : Readers) (polarity : Bool) (e : Event ρ)
    (terms : List Term) (cs : List (Compiled E))
    (hcs : compileTerms readers .event terms = some cs)
    (hr : allRestrict polarity terms = true) :
    ∀ c ∈ cs, truth sem db e c.operand = .ofBool polarity → db.latest e = true := by
  cases terms with
  | nil =>
    obtain rfl := Option.some.inj hcs
    simp
  | cons term terms =>
    obtain ⟨c, hc, hcs⟩ := Option.bind_eq_some_iff.mp hcs
    obtain ⟨rest, hrest, rfl⟩ := Option.map_eq_some_iff.mp hcs
    rw [allRestrict, Bool.and_eq_true] at hr
    exact List.forall_mem_cons.mpr ⟨latest_of_restricts readers polarity e term c hc hr.1,
      latest_of_allRestrict readers polarity e terms rest hrest hr.2⟩

end

mutual

/-- Whether the events are grouped by the latest reports, by the other reports or by all: only a
comparison of `latest_report?` and its negations say so. -/
def groupsBy : Term → Option Bool
  | .equal (.field field) value =>
    if dashesToUnderscores field = "latest_report?" then some value.truthy else none
  | .not terms => firstGroupsBy terms
  | _ => none

def firstGroupsBy : List Term → Option Bool
  | [] => none
  | term :: _ => groupsBy term

end

theorem clause_equality (path : Path) (value : Json) (c : Compiled E)
    (hc : compileEquality .event path value = some c) :
    c.latestReportClause = (groupsBy (.equal path value)).map .latestReport := by
  cases path with
  | field field =>
    have hc : compileResourceEventEquality field value = some c := hc
    by_cases hfield : dashesToUnderscores field = "latest_report?"
    · simp only [compileResourceEventEquality, hfield] at hc
      obtain rfl := Option.some.inj hc
      simp [groupsBy, hfield, Compiled.latestReportClause]
    · simp only [compileResourceEventEquality] at hc
      simp only [groupsBy, if_neg hfield, Option.map_none]
      split_ifs at hc <;> obtain rfl := Option.some.inj hc <;> rfl
  | nodeActive => cases hc
  | parameter name => cases hc

mutual

theorem clause_compileTerm (readers : Readers) (term : Term) (c : Compiled E)
    (hc : compileTerm readers .event term = some c) :
    c.latestReportClause = (groupsBy term).map .latestReport := by
  cases term with
  | empty =>
    obtain rfl := Option.some.inj hc
    rfl
  | equal path value => exact clause_equality path value c hc
  | regexp path pattern => exact noClause_regexp .event path pattern c hc
  | inequality op path value => exact noClause_inequality readers .event op path value c hc
  | and terms =>
    obtain ⟨cs, -, hc⟩ := Option.bind_eq_some_iff.mp hc
    exact noClause_boolean .all cs c hc
  | or terms =>
    obtain ⟨cs, -, hc⟩ := Option.bind_eq_some_iff.mp hc
    exact noClause_boolean .any cs c hc
  | not terms =>
    obtain ⟨cs, hcs, hc⟩ := Option.bind_eq_some_iff.mp hc
    split at hc
    · next d =>
      have hd := clause_compileTerms readers terms d [] hcs
      cases d with
      | filter condition params clause =>
        obtain rfl := Option.some.inj hc
        exact hd
      | select sql params => cases hc
    · cases hc
  | extract field subquery =>
    obtain ⟨d, -, hc⟩ := Option.bind_eq_some_iff.mp hc
    obtain ⟨type, -, hc⟩ := Option.bind_eq_some_iff.mp hc
    split at hc
    · cases d with
      | filter condition params clause => cases hc
      | select sql params =>
        obtain rfl := Option.some.inj hc
        rfl
    · cases hc
  | isIn field subquery =>
    rw [compileTerm] at hc
    split at hc
    · next hextract =>
      obtain ⟨d, hd, rfl⟩ := Option.map_eq_some_iff.mp hc
      have hd := clause_compileTerm readers subquery d hd
      cases subquery with
      | extract field subquery => exact hd
      | _ => simp [Term.isExtract] at hextract
    · cases hc
  | selectResources query =>
    obtain ⟨d, -, rfl⟩ := Option.map_eq_some_iff.mp hc
    rfl
  | selectFacts query =>
    obtain ⟨d, -, rfl⟩ := Option.map_eq_some_iff.mp hc
    rfl

theorem clause_compileTerms (readers : Readers) (terms : List Term) (c : Compiled E)
    (cs : List (Compiled E)) (hcs : compileTerms readers .event terms = some (c :: cs)) :
    c.latestReportClause = (firstGroupsBy terms).map .latestReport := by
  cases terms with
  | nil => cases Option.some.inj hcs
  | cons term terms =>
    obtain ⟨d, hd, hcs⟩ := Option.bind_eq_some_iff.mp hcs
    obtain ⟨rest, -, heq⟩ := Option.map_eq_some_iff.mp hcs
    obtain ⟨rfl, rfl⟩ := List.cons.inj heq
    exact clause_compileTerm readers term d hd

end

/-- A query without a condition says nothing of the latest reports. -/
theorem plain_of_condition_none (readers : Readers) (q : Term) (c : Compiled E)
    (hc : compileTerm readers .event q = some c) (hcondition : c.condition = none) :
    requiresLatest q = false ∧ groupsBy q = none := by
  cases q with
  | equal path value =>
    cases path with
    | field field =>
      by_cases hfield : dashesToUnderscores field = "latest_report?"
      · have hc : compileResourceEventEquality field value = some c := hc
        simp only [compileResourceEventEquality, hfield] at hc
        obtain rfl := Option.some.inj hc
        cases hcondition
      · simp [requiresLatest, restricts, groupsBy, hfield]
    | nodeActive => simp [requiresLatest, restricts, groupsBy]
    | parameter name => simp [requiresLatest, restricts, groupsBy]
  | and terms =>
    obtain ⟨cs, -, hc⟩ := Option.bind_eq_some_iff.mp hc
    rw [Compiled.boolean] at hc
    split at hc
    · cases hc
    · obtain rfl := Option.some.inj hc
      cases hcondition
  | or terms =>
    obtain ⟨cs, -, hc⟩ := Option.bind_eq_some_iff.mp hc
    rw [Compiled.boolean] at hc
    split at hc
    · cases hc
    · obtain rfl := Option.some.inj hc
      cases hcondition
  | not terms =>
    obtain ⟨cs, -, hc⟩ := Option.bind_eq_some_iff.mp hc
    split at hc
    · next d =>
      cases d with
      | filter condition params clause =>
        obtain rfl := Option.some.inj hc
        cases hcondition
      | select sql params => cases hc
    · cases hc
  | empty => simp [requiresLatest, restricts, groupsBy]
  | regexp path pattern => simp [requiresLatest, restricts, groupsBy]
  | inequality op path value => simp [requiresLatest, restricts, groupsBy]
  | extract field subquery => simp [requiresLatest, restricts, groupsBy]
  | isIn field subquery => simp [requiresLatest, restricts, groupsBy]
  | selectResources query => simp [requiresLatest, restricts, groupsBy]
  | selectFacts query => simp [requiresLatest, restricts, groupsBy]

/-- Where there is a condition, it holds where the operand of a boolean operator is true. -/
theorem holds_condition (e : Event ρ) (c : Compiled E) (h : c.condition ≠ none) :
    holds sem db e c.condition = true ↔ truth sem db e c.operand = .yes := by
  obtain ⟨condition, hcondition⟩ := Option.ne_none_iff_exists'.mp h
  simp [Compiled.operand, hcondition, holds]

theorem latest_of_requiresLatest (readers : Readers) (q : Term) (c : Compiled E)
    (hc : compileTerm readers .event q = some c) (hr : requiresLatest q = true) (e : Event ρ)
    (he : holds sem db e c.condition = true) : db.latest e = true := by
  have hcondition : c.condition ≠ none := by
    intro hnone
    have hplain := plain_of_condition_none readers q c hc hnone
    rw [hplain.1] at hr
    cases hr
  exact latest_of_restricts sem db readers true e q c hc hr
    ((holds_condition sem db e c hcondition).mp he)

/-! ## What is selected -/

/-- An event of `S` in the window, and none of `S` with its key in the window is newer. -/
def IsMostRecent (S : Event ρ → Prop) (e : Event ρ) : Prop :=
  w.contains e = true ∧ S e ∧
    ∀ f ∈ db.events, w.contains f = true → S f → f.key = e.key → f.timestamp ≤ e.timestamp

theorem mostRecentAmong_iff (S : Event ρ → Prop) (e : Event ρ) (he : e ∈ db.events) (hS : S e) :
    MostRecentAmong db w S e ↔ IsMostRecent db w S e := by
  constructor
  · intro h
    exact ⟨h.contains db w S e, hS, h.2⟩
  · intro h
    exact ⟨⟨e, he, h.1, hS, rfl, rfl⟩, h.2.2⟩

/-- Some event of a key in the window is the most recent one. -/
theorem exists_isMostRecent (e : Event ρ) (he : e ∈ db.events) (hw : w.contains e = true) :
    ∃ f ∈ db.events, IsMostRecent db w (fun _ => True) f := by
  classical
  obtain ⟨f, hf, hmax⟩ := Finset.exists_max_image
    (db.events.toFinset.filter fun f => w.contains f = true ∧ f.key = e.key) Event.timestamp
    ⟨e, by simp [he, hw]⟩
  simp only [Finset.mem_filter, List.mem_toFinset] at hf hmax
  obtain ⟨hf, hfw, hkey⟩ := hf
  refine ⟨f, hf, hfw, trivial, fun g hg hgw _ hgkey => ?_⟩
  exact hmax g ⟨hg, hgw, hgkey.trans hkey⟩

/-- The query in a boolean operator of its own. -/
def wrappings (q : Term) : List Term := [.and [q], .or [q]]

/-- What the events of a query are: the most recent ones that satisfy it, among those of the
latest reports if it requires them, one of each key; and the query in a boolean operator gives
the same. -/
structure Selects (readers : Readers) (q : Term) (c : Compiled E) : Prop where
  exact : ∀ e, e ∈ distinctEvents sem db w c ↔ e ∈ db.events ∧
    IsMostRecent db w (fun f => requiresLatest q = true → db.latest f = true) e ∧
      holds sem db e c.condition = true
  distinct : (distinctEvents sem db w c).Pairwise fun e f => e.key ≠ f.key
  wrapped : ∀ wrapping ∈ wrappings q, ∃ d, compileTerm readers .event wrapping = some d ∧
    (distinctEvents sem db w d).Perm (distinctEvents sem db w c)

/-- The events of the window are such that the query selects what it should. -/
structure Settled (q : Term) (c : Compiled E) : Prop where
  /-- No two most recent events of a key that satisfy the query have the same timestamp. -/
  noTies : ∀ e ∈ db.events, ∀ f ∈ db.events, IsMostRecent db w (fun _ => True) e →
    IsMostRecent db w (fun _ => True) f → holds sem db e c.condition = true →
      holds sem db f c.condition = true → e.key = f.key → e = f
  /-- Where the latest reports are required, no event of another report is newer. -/
  required : requiresLatest q = true → ∀ e ∈ db.events, holds sem db e c.condition = true →
    IsMostRecent db w (fun f => db.latest f = true) e → IsMostRecent db w (fun _ => True) e
  /-- Where the query is a comparison of `latest_report?` or a negation of one, it makes no
  difference that the groups are. -/
  grouped : ∀ isIn, groupsBy q = some isIn → ∀ e ∈ db.events, holds sem db e c.condition = true →
    (MostRecentAmong db w (fun f => db.latest f = isIn) e ↔ IsMostRecent db w (fun _ => True) e)
  /-- Where the query has no condition, there is nothing in the window. -/
  condition : c.condition = none → ∀ e ∈ db.events, w.contains e = false

/-- Without a clause the events are grouped as they are. -/
theorem mostRecentAmong_holds_none (e : Event ρ) (he : e ∈ db.events) :
    MostRecentAmong db w (fun f => holds sem db f none = true) e ↔
      IsMostRecent db w (fun _ => True) e := by
  have hall : (fun f => holds sem db f (none : Option (Condition E)) = true) = fun _ => True := by
    funext f
    exact eq_true rfl
  rw [hall]
  exact mostRecentAmong_iff db w _ e he trivial

/-- The query in a boolean operator has no clause of its own, and a condition that is true where
that of the query is. -/
theorem compileTerm_wrapping (readers : Readers) (q : Term) (c : Compiled E)
    (hc : compileTerm readers .event q = some c) (wrapping : Term) (h : wrapping ∈ wrappings q) :
    ∃ condition, compileTerm readers .event wrapping =
      some (.filter (some condition) (c.params ++ []) none) ∧
        ∀ e : Event ρ, truth sem db e condition = .yes ↔ truth sem db e c.operand = .yes := by
  simp only [wrappings, List.mem_cons, List.not_mem_nil, or_false] at h
  obtain rfl | rfl := h
  · refine ⟨.all [c.operand], by simp [compileTerm, compileTerms, hc, Compiled.boolean], ?_⟩
    intro e
    simp [truth, truths]
  · refine ⟨.any [c.operand], by simp [compileTerm, compileTerms, hc, Compiled.boolean], ?_⟩
    intro e
    simp [truth, truths]

theorem mem_distinctEvents_wrapping (readers : Readers) (q : Term) (c : Compiled E)
    (hc : compileTerm readers .event q = some c) (wrapping : Term) (h : wrapping ∈ wrappings q) :
    ∃ d, compileTerm readers .event wrapping = some d ∧ ∀ e, e ∈ distinctEvents sem db w d ↔
      e ∈ db.events ∧ IsMostRecent db w (fun _ => True) e ∧ truth sem db e c.operand = .yes := by
  obtain ⟨condition, hd, htruth⟩ := compileTerm_wrapping sem db readers q c hc wrapping h
  refine ⟨_, hd, fun e => ?_⟩
  rw [mem_distinctEvents, and_assoc]
  apply and_congr_right
  intro he
  have hcondition : holds sem db e (some condition) = true ↔ truth sem db e c.operand = .yes := by
    simp [holds, htruth]
  exact and_congr (mostRecentAmong_holds_none sem db w e he) hcondition

theorem mem_distinctEvents_all (readers : Readers) (q : Term) (c : Compiled E)
    (hc : compileTerm readers .event q = some c) (hgroups : groupsBy q = none) (e : Event ρ) :
    e ∈ distinctEvents sem db w c ↔ e ∈ db.events ∧ IsMostRecent db w (fun _ => True) e ∧
      holds sem db e c.condition = true := by
  rw [mem_distinctEvents, clause_compileTerm readers q c hc, hgroups, and_assoc]
  apply and_congr_right
  intro he
  exact and_congr_left fun _ => mostRecentAmong_holds_none sem db w e he

theorem mem_distinctEvents_grouped (readers : Readers) (q : Term) (c : Compiled E)
    (hc : compileTerm readers .event q = some c) (isIn : Bool) (hgroups : groupsBy q = some isIn)
    (e : Event ρ) :
    e ∈ distinctEvents sem db w c ↔ e ∈ db.events ∧
      MostRecentAmong db w (fun f => db.latest f = isIn) e ∧ holds sem db e c.condition = true := by
  rw [mem_distinctEvents, clause_compileTerm readers q c hc, hgroups, and_assoc]
  simp [holds, truth]

/-- An event that satisfies the query is most recent among those that the query requires if it
is most recent among all. -/
theorem isMostRecent_required (readers : Readers) (q : Term) (c : Compiled E)
    (hc : compileTerm readers .event q = some c) (e : Event ρ)
    (he : holds sem db e c.condition = true) (hrecent : IsMostRecent db w (fun _ => True) e) :
    IsMostRecent db w (fun f => requiresLatest q = true → db.latest f = true) e :=
  ⟨hrecent.1, fun hr => latest_of_requiresLatest sem db readers q c hc hr e he,
    fun f hf hfw _ => hrecent.2.2 f hf hfw trivial⟩

theorem mem_distinctEvents_of_grouped (readers : Readers) (q : Term) (c : Compiled E)
    (hc : compileTerm readers .event q = some c)
    (h : ∀ isIn, groupsBy q = some isIn → ∀ e ∈ db.events, holds sem db e c.condition = true →
      (MostRecentAmong db w (fun f => db.latest f = isIn) e ↔
        IsMostRecent db w (fun _ => True) e)) (e : Event ρ) :
    e ∈ distinctEvents sem db w c ↔ e ∈ db.events ∧ IsMostRecent db w (fun _ => True) e ∧
      holds sem db e c.condition = true := by
  cases hgroups : groupsBy q with
  | none => exact mem_distinctEvents_all sem db w readers q c hc hgroups e
  | some isIn =>
    rw [mem_distinctEvents_grouped sem db w readers q c hc isIn hgroups]
    exact and_congr_right fun he => and_congr_left fun hholds => h isIn hgroups e he hholds

theorem exact_of_settled (readers : Readers) (q : Term) (c : Compiled E)
    (hc : compileTerm readers .event q = some c) (h : Settled sem db w q c) (e : Event ρ) :
    e ∈ distinctEvents sem db w c ↔ e ∈ db.events ∧
      IsMostRecent db w (fun f => requiresLatest q = true → db.latest f = true) e ∧
        holds sem db e c.condition = true := by
  rw [mem_distinctEvents_of_grouped sem db w readers q c hc h.grouped]
  apply and_congr_right
  intro he
  apply and_congr_left
  intro hholds
  constructor
  · exact isMostRecent_required sem db w readers q c hc e hholds
  · intro hrecent
    cases hr : requiresLatest q with
    | true => exact h.required hr e he hholds (by simpa [hr] using hrecent)
    | false => simpa [hr] using hrecent

theorem distinct_of_settled (readers : Readers) (q : Term) (c : Compiled E)
    (hc : compileTerm readers .event q = some c) (h : Settled sem db w q c) :
    (distinctEvents sem db w c).Pairwise fun e f => e.key ≠ f.key := by
  apply (nodup_distinctEvents sem db w c).imp_of_mem
  intro e f he hf hne hkey
  rw [mem_distinctEvents_of_grouped sem db w readers q c hc h.grouped] at he hf
  obtain ⟨he, herecent, heholds⟩ := he
  obtain ⟨hf, hfrecent, hfholds⟩ := hf
  exact hne (h.noTies e he f hf herecent hfrecent heholds hfholds hkey)

theorem wrapped_of_settled (readers : Readers) (q : Term) (c : Compiled E)
    (hc : compileTerm readers .event q = some c) (h : Settled sem db w q c) (wrapping : Term)
    (hwrapping : wrapping ∈ wrappings q) :
    ∃ d, compileTerm readers .event wrapping = some d ∧
      (distinctEvents sem db w d).Perm (distinctEvents sem db w c) := by
  obtain ⟨d, hd, hmem⟩ := mem_distinctEvents_wrapping sem db w readers q c hc wrapping hwrapping
  refine ⟨d, hd, ?_⟩
  rw [List.perm_ext_iff_of_nodup (nodup_distinctEvents sem db w d)
    (nodup_distinctEvents sem db w c)]
  intro e
  rw [hmem, mem_distinctEvents_of_grouped sem db w readers q c hc h.grouped]
  apply and_congr_right
  intro he
  apply and_congr_right
  intro hrecent
  have hcondition : c.condition ≠ none := by
    intro hnone
    have hcontains := h.condition hnone e he
    rw [hrecent.1] at hcontains
    cases hcontains
  exact (holds_condition sem db e c hcondition).symm

theorem settled_of_selects (readers : Readers) (q : Term) (c : Compiled E)
    (hc : compileTerm readers .event q = some c) (h : Selects sem db w readers q c) :
    Settled sem db w q c := by
  obtain ⟨d, hd, hperm⟩ := h.wrapped (.and [q]) List.mem_cons_self
  obtain ⟨d', hd', hmem⟩ :=
    mem_distinctEvents_wrapping sem db w readers q c hc (.and [q]) List.mem_cons_self
  obtain rfl := Option.some.inj (hd'.symm.trans hd)
  have hmem : ∀ e, e ∈ distinctEvents sem db w c ↔ e ∈ db.events ∧
      IsMostRecent db w (fun _ => True) e ∧ truth sem db e c.operand = .yes :=
    fun e => hperm.mem_iff.symm.trans (hmem e)
  by_cases hcondition : c.condition = none
  · -- nothing is in the window: the query would return what is most recent there
    obtain ⟨hrequires, hgroups⟩ := plain_of_condition_none readers q c hc hcondition
    have hempty : ∀ e ∈ db.events, w.contains e = false := by
      intro e he
      apply Bool.eq_false_iff.mpr
      intro hw
      obtain ⟨f, hf, hrecent⟩ := exists_isMostRecent db w e he hw
      have hin := (mem_distinctEvents_all sem db w readers q c hc hgroups f).mpr
        ⟨hf, hrecent, by rw [hcondition]; rfl⟩
      have hyes := ((hmem f).mp hin).2.2
      rw [Compiled.operand, hcondition] at hyes
      cases hyes
    constructor
    · intro e he f hf herecent
      have hcontains := herecent.1
      rw [hempty e he] at hcontains
      cases hcontains
    · intro hr
      rw [hrequires] at hr
      cases hr
    · intro isIn hisIn
      rw [hgroups] at hisIn
      cases hisIn
    · exact fun _ => hempty
  · have hmem : ∀ e, e ∈ distinctEvents sem db w c ↔ e ∈ db.events ∧
        IsMostRecent db w (fun _ => True) e ∧ holds sem db e c.condition = true := by
      intro e
      rw [hmem, holds_condition sem db e c hcondition]
    constructor
    · intro e he f hf herecent hfrecent heholds hfholds hkey
      by_contra hne
      have hsymm : Std.Symm fun e f : Event ρ => e.key ≠ f.key := ⟨fun _ _ h => h.symm⟩
      exact h.distinct.forall ((hmem e).mpr ⟨he, herecent, heholds⟩)
        ((hmem f).mpr ⟨hf, hfrecent, hfholds⟩) hne hkey
    · intro hr e he hholds hrecent
      have hin := (h.exact e).mpr ⟨he, by simpa [hr] using hrecent, hholds⟩
      exact ((hmem e).mp hin).2.1
    · intro isIn hgroups e he hholds
      have hin := mem_distinctEvents_grouped sem db w readers q c hc isIn hgroups e
      rw [hmem] at hin
      simpa [he, hholds] using hin.symm
    · exact fun hnone => absurd hnone hcondition

/-- The events are what they should be where there are no ties, no event of another report is
newer than one of the latest reports that the query requires, the query is not grouped by the
reports in a way that matters, and it has a condition or nothing is in the window. -/
theorem distinctEvents_selects_iff (readers : Readers) (q : Term) (c : Compiled E)
    (hc : compileTerm readers .event q = some c) :
    Selects sem db w readers q c ↔ Settled sem db w q c := by
  constructor
  · exact settled_of_selects sem db w readers q c hc
  · intro h
    exact ⟨exact_of_settled sem db w readers q c hc h,
      distinct_of_settled sem db w readers q c hc h,
      wrapped_of_settled sem db w readers q c hc h⟩

/-! ## A newer event of another report -/

def noReaders : Readers := ⟨fun _ => none, fun _ => none⟩

/-- A database in which no comparison is true. -/
def noComparisons : Semantics Empty Unit :=
  ⟨fun _ _ _ _ => .unknown, fun _ _ => false, fun _ _ => .unknown⟩

def fileFoo (reportId : Nat) (timestamp : Int) : Event Unit :=
  ⟨1, reportId, "File", "/tmp/foo", none, none, timestamp, ()⟩

/-- The report with the older event is the latest report. -/
def olderIsLatest : Database Unit := ⟨[fileFoo 1 10, fileFoo 2 20], by decide, [1]⟩

/-- There is one report. -/
def oneReport : Database Unit := ⟨[fileFoo 1 10], by decide, [1]⟩

def latestOnly : Term := .equal (.field "latest_report?") (.bool true)

def latestOnlyCompiled : Compiled Empty :=
  .filter (some (.latestReport true)) [] (some (.latestReport true))

theorem mem_oneReport (e : Event Unit) (he : e ∈ oneReport.events) : e = fileFoo 1 10 :=
  List.mem_singleton.mp he

theorem distinctEvents_selects_iff_oneReport :
    Selects noComparisons oneReport ⟨0, 30⟩ noReaders latestOnly latestOnlyCompiled := by
  apply (distinctEvents_selects_iff noComparisons oneReport ⟨0, 30⟩ noReaders latestOnly
    latestOnlyCompiled rfl).mpr
  have hlatest : ∀ e ∈ oneReport.events, oneReport.latest e = true := by decide
  have hwindow : ∀ e ∈ oneReport.events, Window.contains ⟨0, 30⟩ e = true := by decide
  have hnewer : ∀ e ∈ oneReport.events, ∀ f ∈ oneReport.events, f.timestamp ≤ e.timestamp := by
    decide
  constructor
  · intro e he f hf _ _ _ _ _
    rw [mem_oneReport e he, mem_oneReport f hf]
  · intro _ e he _ _
    exact ⟨hwindow e he, trivial, fun f hf _ _ _ => hnewer e he f hf⟩
  · intro isIn hisIn e he _
    obtain rfl := Option.some.inj hisIn
    exact iff_of_true
      ⟨⟨e, he, hwindow e he, hlatest e he, rfl, rfl⟩, fun f hf _ _ _ => hnewer e he f hf⟩
      ⟨hwindow e he, trivial, fun f hf _ _ _ => hnewer e he f hf⟩
  · intro hnone
    cases hnone

/-- The query gives the older event, and in a boolean operator of its own nothing. -/
theorem selects_fails :
    ¬ Selects noComparisons olderIsLatest ⟨0, 30⟩ noReaders latestOnly latestOnlyCompiled := by
  intro h
  obtain ⟨d, hd, hperm⟩ := h.wrapped (.and [latestOnly]) List.mem_cons_self
  have hwrapped : compileTerm noReaders .event (.and [latestOnly]) =
      some (.filter (some (.all [.latestReport true])) [] none : Compiled Empty) := rfl
  obtain rfl := Option.some.inj (hwrapped.symm.trans hd)
  have hlength := hperm.length_eq
  revert hlength
  decide

end OpenVoxDB.DistinctEvents
