import Mathlib
import OpenVoxDB.EventCounts

/-!
# Counts of events by certname

Counted by certname, the events are made distinct with their `corrective_change` before they are
summed, and most of the sums do not tell its values apart. Here the counts are compared with the
numbers of events and of nodes.
-/

namespace OpenVoxDB.EventCounts

/-! ## Distinct values -/

section Distinct

variable {α β : Type} [DecidableEq β]

/-- The number of distinct values depends on the members only. -/
theorem length_dedup_map_congr (f : α → β) (xs ys : List α) (h : ∀ x, x ∈ xs ↔ x ∈ ys) :
    (xs.map f).dedup.length = (ys.map f).dedup.length := by
  apply List.Perm.length_eq
  apply (List.perm_ext_iff_of_nodup (List.nodup_dedup _) (List.nodup_dedup _)).mpr
  intro b
  simp only [List.mem_dedup, List.mem_map, h]

/-- Different members have different values when there are as many of these. -/
theorem length_eq_length_dedup_map_iff (f : α → β) (xs : List α) (hxs : xs.Nodup) :
    xs.length = (xs.map f).dedup.length ↔ ∀ x ∈ xs, ∀ y ∈ xs, f x = f y → x = y := by
  rw [← List.nodup_map_iff_inj_on hxs, ← List.dedup_eq_self]
  constructor
  · intro hlength
    apply (List.dedup_sublist (xs.map f)).eq_of_length
    rw [← hlength, List.length_map]
  · intro hself
    rw [hself, List.length_map]

/-- Members of a list that are counted once each are as many as their values exactly when no two
of them share a value. -/
theorem length_filter_dedup_iff [DecidableEq α] (f : α → β) (p : α → Bool) (xs : List α) :
    (xs.dedup.filter p).length = ((xs.filter p).map f).dedup.length ↔
      ∀ x ∈ xs, ∀ y ∈ xs, p x = true → p y = true → f x = f y → x = y := by
  have hmem : ∀ x, x ∈ xs.filter p ↔ x ∈ xs.dedup.filter p := by
    intro x
    rw [List.mem_filter, List.mem_filter, List.mem_dedup]
  rw [length_dedup_map_congr f _ _ hmem,
    length_eq_length_dedup_map_iff f _ ((List.nodup_dedup xs).filter p)]
  constructor
  · intro h x hx y hy hpx hpy
    exact h x ((hmem x).mp (List.mem_filter.mpr ⟨hx, hpx⟩)) y
      ((hmem y).mp (List.mem_filter.mpr ⟨hy, hpy⟩))
  · intro h x hx y hy
    obtain ⟨hx, hpx⟩ := List.mem_filter.mp ((hmem x).mpr hx)
    obtain ⟨hy, hpy⟩ := List.mem_filter.mp ((hmem y).mpr hy)
    exact h x hx y hy hpx hpy

end Distinct

/-! ## What the counts are to be -/

/-- The events of a subject with an outcome. -/
def eventsWith (groupBy : List String) (events : List Event) (subject : List (Option String))
    (f : Field) : List Event :=
  events.filter fun e => (e.counted groupBy).subject = subject && f.counts (e.counted groupBy)

/-- The events of a subject with an outcome, or the nodes that have one. -/
def numberOf (countBy : CountBy) (groupBy : List String) (events : List Event)
    (subject : List (Option String)) (f : Field) : Nat :=
  match countBy with
  | .resource => (eventsWith groupBy events subject f).length
  | .certname => ((eventsWith groupBy events subject f).map (·.certname)).dedup.length

variable (storeCorrectiveChange : Bool)

/-- Every row counts the events or the nodes of its subject. -/
def RowsCount (e : CountsQuery) (events : List Event) (rows : List CountRow) : Prop :=
  ∀ row ∈ rows, row.counts = (fields storeCorrectiveChange).map fun f =>
    (f, numberOf e.countBy e.groupBy events row.subject f)

/-- Events of one subject, one outcome and one node carry one `corrective_change`. -/
def OneCorrectiveChange (groupBy : List String) (events : List Event) : Prop :=
  ∀ f ∈ fields storeCorrectiveChange, ∀ x ∈ events, ∀ y ∈ events,
    (x.counted groupBy).subject = (y.counted groupBy).subject → x.certname = y.certname →
      f.counts (x.counted groupBy) = true → f.counts (y.counted groupBy) = true →
        x.correctiveChange = y.correctiveChange

/-! ## One count -/

def Field.status : Field → String
  | failures => "failure"
  | skips => "skipped"
  | successes => "success"
  | noops => "noop"
  | intentionalSuccesses => "success"
  | correctiveSuccesses => "success"
  | intentionalNoops => "noop"
  | correctiveNoops => "noop"

theorem Field.status_of_counts (f : Field) (c : Counted) (h : f.counts c = true) :
    c.status = f.status := by
  cases f with
  | failures => simpa [Field.counts, Field.status] using h
  | skips => simpa [Field.counts, Field.status] using h
  | successes => simpa [Field.counts, Field.status] using h
  | noops => simpa [Field.counts, Field.status] using h
  | intentionalSuccesses =>
    simp only [Field.counts, Bool.and_eq_true, decide_eq_true_eq] at h
    exact h.1
  | correctiveSuccesses =>
    simp only [Field.counts, Bool.and_eq_true, decide_eq_true_eq] at h
    exact h.1
  | intentionalNoops =>
    simp only [Field.counts, Bool.and_eq_true, decide_eq_true_eq] at h
    exact h.1
  | correctiveNoops =>
    simp only [Field.counts, Bool.and_eq_true, decide_eq_true_eq] at h
    exact h.1

/-- The count of a field in the row of a subject. -/
def countOf (e : CountsQuery) (events : List Event) (subject : List (Option String))
    (f : Field) : Nat :=
  ((e.counted events).filter fun c => c.subject = subject && f.counts c).length

theorem filter_counted (groupBy : List String) (events : List Event)
    (subject : List (Option String)) (f : Field) :
    ((events.map (Event.counted groupBy)).filter fun c => c.subject = subject && f.counts c) =
      (eventsWith groupBy events subject f).map (Event.counted groupBy) := by
  rw [List.filter_map]
  rfl

/-- A count is right by resource, and by certname where no node has events that differ in
`corrective_change` alone. -/
theorem countOf_eq_numberOf_iff (e : CountsQuery) (events : List Event)
    (subject : List (Option String)) (f : Field) :
    countOf e events subject f = numberOf e.countBy e.groupBy events subject f ↔
      e.countBy = .resource ∨ ∀ x ∈ eventsWith e.groupBy events subject f,
        ∀ y ∈ eventsWith e.groupBy events subject f, x.certname = y.certname →
          x.correctiveChange = y.correctiveChange := by
  cases hcount : e.countBy with
  | resource =>
    simp only [countOf, CountsQuery.counted, numberOf, hcount, filter_counted, List.length_map,
      true_or]
  | certname =>
    have hnames : (eventsWith e.groupBy events subject f).map (·.certname) =
        ((events.map (Event.counted e.groupBy)).filter fun c =>
          c.subject = subject && f.counts c).map (·.certname) := by
      rw [filter_counted, List.map_map]
      rfl
    simp only [countOf, CountsQuery.counted, numberOf, hcount, hnames]
    rw [length_filter_dedup_iff]
    simp only [reduceCtorEq, false_or]
    constructor
    · intro h x hx y hy hcertname
      obtain ⟨hx, hpx⟩ := List.mem_filter.mp hx
      obtain ⟨hy, hpy⟩ := List.mem_filter.mp hy
      have hsame := h _ (List.mem_map_of_mem hx) _ (List.mem_map_of_mem hy) hpx hpy hcertname
      exact congrArg Counted.correctiveChange hsame
    · intro h c hc d hd hpc hpd hcertname
      obtain ⟨x, hx, rfl⟩ := List.mem_map.mp hc
      obtain ⟨y, hy, rfl⟩ := List.mem_map.mp hd
      have hchange := h x (List.mem_filter.mpr ⟨hx, hpc⟩) y (List.mem_filter.mpr ⟨hy, hpd⟩)
        hcertname
      simp only [Bool.and_eq_true, decide_eq_true_eq] at hpc hpd
      obtain ⟨hsubject, hfx⟩ := hpc
      obtain ⟨hsubject', hfy⟩ := hpd
      have hstatus : (x.counted e.groupBy).status = (y.counted e.groupBy).status := by
        rw [f.status_of_counts _ hfx, f.status_of_counts _ hfy]
      change (⟨(x.counted e.groupBy).subject, _, _, _⟩ : Counted) =
        ⟨(y.counted e.groupBy).subject, _, _, _⟩
      rw [hsubject, hsubject']
      exact congr (congr (congrArg (Counted.mk subject) hcertname) hstatus) hchange

/-! ## The rows -/

/-- The row of a subject. -/
def subjectRow (e : CountsQuery) (events : List Event) (subject : List (Option String)) :
    CountRow :=
  ⟨subject, (fields storeCorrectiveChange).map fun f => (f, countOf e events subject f)⟩

theorem rows_unfiltered (e : CountsQuery) (db : Database) (filled : Filled) :
    e.rows storeCorrectiveChange db { filled with filter := none } =
      ((e.counted (db.events filled.latest filled.select)).map Counted.subject).dedup.map
        (subjectRow storeCorrectiveChange e (db.events filled.latest filled.select)) := rfl

/-- A condition on the counts only drops rows. -/
theorem rows_subset (e : CountsQuery) (db : Database) (filled : Filled) (filter : Option Text) :
    e.rows storeCorrectiveChange db { filled with filter := filter } ⊆
      e.rows storeCorrectiveChange db { filled with filter := none } := by
  cases filter with
  | none => exact List.Subset.refl _
  | some condition => exact List.filter_sublist.subset

theorem mem_subjects (e : CountsQuery) (events : List Event) (subject : List (Option String)) :
    subject ∈ ((e.counted events).map Counted.subject).dedup ↔
      ∃ x ∈ events, (x.counted e.groupBy).subject = subject := by
  rw [List.mem_dedup, List.mem_map]
  have hmem : ∀ c, c ∈ e.counted events ↔ c ∈ events.map (Event.counted e.groupBy) := by
    intro c
    unfold CountsQuery.counted
    cases e.countBy with
    | resource => exact Iff.rfl
    | certname => exact List.mem_dedup
  constructor
  · intro ⟨c, hc, hsubject⟩
    obtain ⟨x, hx, rfl⟩ := List.mem_map.mp ((hmem c).mp hc)
    exact ⟨x, hx, hsubject⟩
  · intro ⟨x, hx, hsubject⟩
    exact ⟨_, (hmem _).mpr (List.mem_map_of_mem hx), hsubject⟩

theorem subjectRow_counts_iff (e : CountsQuery) (events : List Event)
    (subject : List (Option String)) :
    (subjectRow storeCorrectiveChange e events subject).counts =
        (fields storeCorrectiveChange).map (fun f =>
          (f, numberOf e.countBy e.groupBy events subject f)) ↔
      ∀ f ∈ fields storeCorrectiveChange,
        countOf e events subject f = numberOf e.countBy e.groupBy events subject f := by
  rw [subjectRow, List.map_inj_left]
  simp only [Prod.mk.injEq, true_and]

/-- Whatever the counts are filtered by, each of them is the number of events with its outcome, or
of the nodes that have one, exactly when the events are counted by resource or no node has two
events of one subject and one outcome that differ in `corrective_change`. -/
theorem rowsCount_iff (e : CountsQuery) (db : Database) (filled : Filled) :
    (∀ filter : Option Text, RowsCount storeCorrectiveChange e
        (db.events filled.latest filled.select)
        (e.rows storeCorrectiveChange db { filled with filter := filter })) ↔
      e.countBy = .resource ∨
        OneCorrectiveChange storeCorrectiveChange e.groupBy
          (db.events filled.latest filled.select) := by
  have hrows := rows_unfiltered storeCorrectiveChange e db filled
  have hsub := rows_subset storeCorrectiveChange e db filled
  generalize db.events filled.latest filled.select = events at *
  constructor
  · intro h
    by_cases hresource : e.countBy = .resource
    · exact Or.inl hresource
    · apply Or.inr
      intro f hf x hx y hy hsubject hcertname hfx hfy
      have hrow : subjectRow storeCorrectiveChange e events (x.counted e.groupBy).subject ∈
          e.rows storeCorrectiveChange db { filled with filter := none } := by
        rw [hrows]
        exact List.mem_map_of_mem ((mem_subjects e events _).mpr ⟨x, hx, rfl⟩)
      have hcounts := (subjectRow_counts_iff storeCorrectiveChange e events _).mp
        (h none _ hrow) f hf
      have hone := ((countOf_eq_numberOf_iff e events _ f).mp hcounts).resolve_left hresource
      apply hone x (List.mem_filter.mpr ⟨hx, _⟩) y (List.mem_filter.mpr ⟨hy, _⟩) hcertname
      · simpa using hfx
      · simpa [hsubject] using hfy
  · intro h filter row hrow
    have hrow' := hsub filter hrow
    rw [hrows] at hrow'
    obtain ⟨subject, -, rfl⟩ := List.mem_map.mp hrow'
    apply (subjectRow_counts_iff storeCorrectiveChange e events subject).mpr
    intro f hf
    apply (countOf_eq_numberOf_iff e events subject f).mpr
    apply h.imp_right
    intro hone x hx y hy hcertname
    obtain ⟨hx, hpx⟩ := List.mem_filter.mp hx
    obtain ⟨hy, hpy⟩ := List.mem_filter.mp hy
    simp only [Bool.and_eq_true, decide_eq_true_eq] at hpx hpy
    exact hone f hf x hx y hy (hpx.1.trans hpy.1.symm) hcertname hpx.2 hpy.2

/-- One node with a corrective and another failure. -/
def twoFailures : List Event :=
  [⟨"a", "failure", some true, "File", "x", none⟩,
    ⟨"a", "failure", some false, "File", "y", none⟩]

/-- The node is counted twice. -/
theorem rowsCount_fails :
    ¬ ∀ (storeCorrectiveChange : Bool) (e : CountsQuery) (db : Database) (filled : Filled),
      RowsCount storeCorrectiveChange e (db.events filled.latest filled.select)
        (e.rows storeCorrectiveChange db filled) := by
  intro h
  have hrows := h true ⟨[], [], .certname, "certname", ["certname"], none⟩
    ⟨fun _ _ => twoFailures, fun _ _ => true⟩ ⟨[], [], none⟩
  have hcounts := hrows ⟨[some "a"], [(.failures, 2), (.skips, 0), (.intentionalSuccesses, 0),
    (.correctiveSuccesses, 0), (.intentionalNoops, 0), (.correctiveNoops, 0)]⟩ (by decide)
  revert hcounts
  decide

end OpenVoxDB.EventCounts
