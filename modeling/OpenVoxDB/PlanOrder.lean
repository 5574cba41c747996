import OpenVoxDB.PlanParams

/-!
# Parameters out of order

Where every parameter occurs once, the order in which they are collected is
that of the text only if no subquery with parameters of its own stands behind
another parameter, and no query has two calls with parameters.
-/

namespace OpenVoxDB.Plans

variable {V : Type} (parser : FieldParser)

/-! ## Parameters that occur once -/

mutual

/-- No parameter of one clause is a parameter of another, nor of one call that of another. -/
def Plan.Separate : Plan V → Prop
  | .inSub _ query filter =>
    query.blocks.Pairwise List.Disjoint ∧ SeparateFilter filter ∧
      List.Disjoint query.selectionParams (marks (filterTokens parser filter))
  | .and clauses | .or clauses => SeparateClauses clauses
  | .not clause => clause.Separate
  | _ => True

def SeparateFilter : Option (Plan V) → Prop
  | none => True
  | some plan => plan.Separate

def SeparateClauses : List (Plan V) → Prop
  | [] => True
  | plan :: plans => plan.Separate ∧ SeparateClauses plans ∧
      List.Disjoint (marks (plan.tokens parser)) (marks (clausesTokens parser plans))

end

/-- Lists that begin differently. -/
theorem append_ne_append {α : Type} (xs ys : List α) (xs' ys' : List α) (hxs : xs ≠ [])
    (hys : ys ≠ []) (h : List.Disjoint xs ys) : xs ++ xs' ≠ ys ++ ys' := by
  cases xs with
  | nil => exact absurd rfl hxs
  | cons x xs =>
    cases ys with
    | nil => exact absurd rfl hys
    | cons y ys =>
      intro heq
      cases List.head_eq_of_cons_eq heq
      exact h List.mem_cons_self List.mem_cons_self

/-- Blocks with nothing in common are the same in both orders only if one at most is there. -/
theorem one_of_flatten_reverse {α : Type} (blocks : List (List α))
    (hdisjoint : blocks.Pairwise List.Disjoint) (h : blocks.reverse.flatten = blocks.flatten) :
    (blocks.filter fun block => !block.isEmpty).length ≤ 1 := by
  rw [← flatten_filter_nonempty blocks, ← flatten_filter_nonempty blocks.reverse,
    List.filter_reverse] at h
  have hsub : (blocks.filter fun block => !block.isEmpty).Sublist blocks := List.filter_sublist
  have hpairwise := hdisjoint.sublist hsub
  have hnonempty : ∀ block ∈ blocks.filter fun block => !block.isEmpty, block ≠ [] := by
    simp
  match hb : blocks.filter fun block => !block.isEmpty with
  | [] | [_] => simp [hb]
  | first :: second :: rest =>
    rw [hb] at h hpairwise hnonempty
    have hlast := List.dropLast_append_getLast (List.cons_ne_nil second rest)
    rw [List.reverse_cons, ← hlast, List.reverse_append, List.reverse_singleton,
      List.singleton_append, List.cons_append, List.flatten_cons, List.flatten_cons] at h
    have hmem := List.getLast_mem (List.cons_ne_nil second rest)
    exact absurd h (append_ne_append _ _ _ _ (hnonempty _ (List.mem_cons_of_mem _ hmem))
      (hnonempty _ List.mem_cons_self)
      (List.disjoint_symm ((List.pairwise_cons.mp hpairwise).1 _ hmem)))

/-! ## Arguments without a placeholder -/

theorem QueryRec.lead_length (query : QueryRec V) :
    query.lead.length = (query.call.map fun call => call.params.length).sum := by
  rw [QueryRec.lead, List.length_flatten, List.map_reverse, List.sum_reverse, List.map_map]
  congr 1
  exact List.map_congr_left fun call _ => by simp [FnExpression.parameters]

theorem QueryRec.callMarks_length (query : QueryRec V) :
    query.callMarks.length =
      (query.call.map fun call => (call.params.filter Arg.bound).length).sum := by
  simp [QueryRec.callMarks, List.length_flatMap]

/-- The calls have a parameter for each placeholder, and more if an argument has none. -/
theorem QueryRec.callMarks_le (query : QueryRec V) :
    query.callMarks.length ≤ query.lead.length ∧
      (query.lead.length ≤ query.callMarks.length → query.bound = true) := by
  rw [query.callMarks_length, query.lead_length, QueryRec.bound]
  induction query.call with
  | nil => simp
  | cons call calls ih =>
    have hle := List.length_filter_le Arg.bound call.params
    simp only [List.map_cons, List.sum_cons, List.all_cons, Bool.and_eq_true]
    refine ⟨by omega, fun h => ⟨?_, ih.2 (by omega)⟩⟩
    rw [List.all_eq_true]
    exact List.length_filter_eq_length_iff.mp (by omega)

/-- The placeholders of a clause are no more than its parameters, and as many only if every
argument in it has one. -/
def Plan.Covered (plan : Plan V) : Prop :=
  (marks (plan.tokens parser)).length ≤ (plan.front ++ plan.back parser).length ∧
    ((plan.front ++ plan.back parser).length ≤ (marks (plan.tokens parser)).length →
      plan.bound = true)

theorem clauses_covered (clauses : List (Plan V)) (ih : ∀ plan ∈ clauses, plan.Covered parser) :
    (marks (clausesTokens parser clauses)).length ≤
        (frontClauses clauses ++ backClauses parser clauses).length ∧
      ((frontClauses clauses ++ backClauses parser clauses).length ≤
        (marks (clausesTokens parser clauses)).length → boundClauses clauses = true) := by
  induction clauses with
  | nil => simp [clausesTokens, boundClauses]
  | cons plan plans ihplans =>
    have hplan := ih plan List.mem_cons_self
    have hplans := ihplans fun p hp => ih p (List.mem_cons_of_mem _ hp)
    simp only [Plan.Covered, List.length_append] at hplan hplans
    simp only [frontClauses, backClauses, clausesTokens, marks_append, List.length_append,
      boundClauses, Bool.and_eq_true]
    exact ⟨by omega, fun h => ⟨hplan.2 (by omega), hplans.2 (by omega)⟩⟩

theorem Plan.covered (plan : Plan V) : plan.Covered parser := by
  induction plan using Plan.ind with
  | inSub columns query filter ih =>
    have hquery := query.callMarks_le
    have hfilter : (marks (filterTokens parser filter)).length ≤
          (frontFilter filter ++ backFilter parser filter).length ∧
        ((frontFilter filter ++ backFilter parser filter).length ≤
          (marks (filterTokens parser filter)).length → boundFilter filter = true) := by
      cases filter with
      | none => simp [filterTokens, boundFilter]
      | some plan => exact ih plan rfl
    simp only [List.length_append] at hquery hfilter
    simp only [Plan.Covered, Plan.front, Plan.back, Plan.tokens, Plan.bound, marks_plain,
      marks_append, marks_nil, QueryRec.marks_tokens, marks_map_field (fun c : Column => c.field),
      List.cons_append, List.nil_append, List.append_nil, List.length_append, Bool.and_eq_true]
    exact ⟨by omega, fun h => ⟨hquery.2 (by omega), hfilter.2 (by omega)⟩⟩
  | and clauses ih | or clauses ih =>
    simpa [Plan.Covered, Plan.front, Plan.back, Plan.tokens, Plan.bound] using
      clauses_covered parser clauses ih
  | not clause ih =>
    simpa [Plan.Covered, Plan.front, Plan.back, Plan.tokens, Plan.bound] using ih
  | _ =>
    rw [Plan.Covered, Plan.marks_expression parser _ rfl]
    simp [Plan.front, Plan.back, Plan.bound]

/-! ## Order is needed -/

theorem QueryRec.aligned_of_lead (query : QueryRec V) (hbound : query.bound = true)
    (hseparate : query.blocks.Pairwise List.Disjoint)
    (h : query.lead = query.callMarks) : query.aligned = true := by
  rw [query.callMarks_of_bound hbound, QueryRec.lead] at h
  exact decide_eq_true (one_of_flatten_reverse _ hseparate h)

theorem clauses_ordered (clauses : List (Plan V)) (hbound : boundClauses clauses = true)
    (hseparate : SeparateClauses parser clauses)
    (h : frontClauses clauses ++ backClauses parser clauses = marks (clausesTokens parser clauses))
    (ih : ∀ plan ∈ clauses, plan.bound = true → plan.Separate parser → plan.inOrder parser →
      plan.ordered = true) : orderedClauses clauses = true := by
  induction clauses with
  | nil => rfl
  | cons plan plans ihplans =>
    rw [boundClauses, Bool.and_eq_true] at hbound
    obtain ⟨hsep, hseps, hdisjoint⟩ := hseparate
    have hperm := plan.perm parser hbound.1
    have hperms := clauses_perm parser plans hbound.2 fun p _ hb => p.perm parser hb
    rw [frontClauses, backClauses, clausesTokens, marks_append, ← List.append_assoc,
      List.append_assoc (frontClauses plans)] at h
    have hbehind : ¬ (plan.binds = true ∧ leadsClauses plans = true) := by
      rintro ⟨hbinds, hleads⟩
      have hmarks : marks (plan.tokens parser) ≠ [] := fun hnil => by
        simp [(plan.marks_eq_nil_iff parser hbound.1).mp hnil] at hbinds
      have hfront : frontClauses plans ≠ [] := fun hnil => by
        simp [(frontClauses_eq_nil_iff plans fun p _ => p.front_eq_nil_iff).mp hnil] at hleads
      have hapart : List.Disjoint (frontClauses plans) (marks (plan.tokens parser)) :=
        fun p hp hmark => hdisjoint hmark
          (hperms.mem_iff.mp (List.mem_append_left _ hp))
      rw [List.append_assoc] at h
      exact append_ne_append _ _ _ _ hfront hmarks hapart h
    have hsplit : plan.inOrder parser ∧ frontClauses plans ++ backClauses parser plans =
        marks (clausesTokens parser plans) := by
      rcases Bool.eq_false_or_eq_true plan.binds with hbinds | hbinds
      · have hleads : leadsClauses plans = false := by simpa [hbinds] using hbehind
        have hfront := (frontClauses_eq_nil_iff plans fun p _ => p.front_eq_nil_iff).mpr hleads
        rw [hfront, List.nil_append] at h
        rw [hfront, List.nil_append]
        exact List.append_inj h hperm.length_eq
      · have hnil := (plan.marks_eq_nil_iff parser hbound.1).mpr hbinds
        rw [hnil, List.perm_nil, List.append_eq_nil_iff] at hperm
        rw [hnil, hperm.1, hperm.2, List.nil_append, List.nil_append, List.append_nil] at h
        rw [Plan.inOrder, hnil, hperm.1, hperm.2]
        exact ⟨rfl, h⟩
    rw [orderedClauses, ih plan List.mem_cons_self hbound.1 hsep hsplit.1,
      ihplans hbound.2 hseps hsplit.2 fun p hp => ih p (List.mem_cons_of_mem _ hp)]
    simpa [imp_iff_not_or] using hbehind

/-- What stands in front of a selection with parameters is not from its filter. -/
theorem front_behind_selection (names front back filter : List (Param V))
    (h : front ++ names ++ back = names ++ filter) (hmem : ∀ p ∈ front, p ∈ filter)
    (hdisjoint : List.Disjoint names filter) :
    (names = [] ∨ front = []) ∧ front ++ back = filter := by
  cases names with
  | nil => simpa using h
  | cons name names =>
    cases front with
    | nil => simpa using h
    | cons p front =>
      rw [List.append_assoc] at h
      have hapart : List.Disjoint (p :: front) (name :: names) :=
        fun q hq hname => hdisjoint hname (hmem q hq)
      exact absurd h (append_ne_append _ _ _ _ (List.cons_ne_nil p front)
        (List.cons_ne_nil name names) hapart)

theorem filter_perm (filter : Option (Plan V)) (hbound : boundFilter filter = true) :
    (frontFilter filter ++ backFilter parser filter).Perm
      (marks (filterTokens parser filter)) := by
  cases filter with
  | none => simp [frontFilter, backFilter, filterTokens]
  | some plan => exact plan.perm parser hbound

theorem Plan.ordered_of_inOrder (plan : Plan V) (hbound : plan.bound = true)
    (hseparate : plan.Separate parser) (h : plan.inOrder parser) : plan.ordered = true := by
  induction plan using Plan.ind with
  | inSub columns query filter ih =>
    rw [Plan.bound, Bool.and_eq_true] at hbound
    obtain ⟨hblocks, hsep, hdisjoint⟩ := hseparate
    have htext : query.lead ++ (frontFilter filter ++ query.selectionParams ++
          backFilter parser filter) =
        query.callMarks ++ (query.selectionParams ++ marks (filterTokens parser filter)) := by
      simpa [Plan.inOrder, Plan.front, Plan.back, Plan.tokens, QueryRec.marks_tokens,
        marks_map_field (fun c : Column => c.field)] using h
    obtain ⟨hlead, hrest⟩ := List.append_inj htext (query.lead_perm hbound.1).length_eq
    have hmem : ∀ p ∈ frontFilter filter, p ∈ marks (filterTokens parser filter) := fun p hp =>
      (filter_perm parser filter hbound.2).mem_iff.mp (List.mem_append_left _ hp)
    obtain ⟨hselection, hrest⟩ := front_behind_selection _ _ _ _ hrest hmem hdisjoint
    have hfilter : orderedFilter filter = true := by
      cases filter with
      | none => rfl
      | some plan => exact ih plan rfl hbound.2 hsep hrest
    rw [query.selectionParams_eq_nil_iff, frontFilter_eq_nil_iff] at hselection
    rw [Plan.ordered, query.aligned_of_lead hbound.1 hblocks hlead, hfilter]
    simpa [Bool.and_eq_false_iff] using hselection
  | and clauses ih | or clauses ih =>
    rw [Plan.bound] at hbound
    rw [Plan.ordered]
    refine clauses_ordered parser clauses hbound hseparate ?_ ih
    simpa [Plan.inOrder, Plan.front, Plan.back, Plan.tokens] using h
  | not clause ih =>
    rw [Plan.bound] at hbound
    rw [Plan.ordered]
    exact ih hbound hseparate (by simpa [Plan.inOrder, Plan.front, Plan.back, Plan.tokens] using h)
  | _ => simp [Plan.ordered]

/-! ## A whole query -/

/-- Every argument of the calls of a query has a placeholder. -/
def Query.bound (q : Query V) : Bool := q.query.bound && boundFilter q.filter

/-- One call at most brings parameters to each record, and no subquery that brings some stands
behind another parameter. -/
def Query.ordered (q : Query V) : Bool :=
  q.query.aligned && orderedFilter q.filter && !(q.query.selects && leadsFilter q.filter)

/-- No parameter of one part of the query is a parameter of another. -/
def Query.Separate (q : Query V) : Prop :=
  q.query.blocks.Pairwise List.Disjoint ∧ SeparateFilter parser q.filter ∧
    List.Disjoint q.query.selectionParams (marks (filterTokens parser q.filter))

/-- The query as the subquery of a clause: its text but for what surrounds it. -/
theorem Query.marks_tokens (q : Query V) :
    marks (q.tokens parser) = marks ((Plan.inSub [] q.query q.filter).tokens parser) := by
  simp [Query.tokens, Plan.tokens]

theorem Query.extractAllParams_inSub (q : Query V) :
    q.extractAllParams parser = marks (q.tokens parser) ↔
      (Plan.inSub [] q.query q.filter).inOrder parser := by
  rw [Plan.inOrder, q.extractAllParams_eq, q.marks_tokens, Plan.front, Plan.back]

theorem Query.bound_inSub (q : Query V) : (Plan.inSub [] q.query q.filter).bound = q.bound := by
  rw [Plan.bound, Query.bound]

theorem Query.ordered_inSub (q : Query V) :
    (Plan.inSub [] q.query q.filter).ordered = q.ordered := by
  rw [Plan.ordered, Query.ordered]

theorem Query.params_of_ordered (q : Query V) (hbound : q.bound = true)
    (hordered : q.ordered = true) : q.extractAllParams parser = marks (q.tokens parser) := by
  rw [← q.bound_inSub] at hbound
  rw [← q.ordered_inSub] at hordered
  exact q.extractAllParams_inSub parser |>.mpr (Plan.inOrder_of_ordered parser _ hbound hordered)

theorem Query.ordered_of_params (q : Query V) (hseparate : q.Separate parser)
    (h : q.extractAllParams parser = marks (q.tokens parser)) :
    q.bound = true ∧ q.ordered = true := by
  have hin := (q.extractAllParams_inSub parser).mp h
  have hlength := Nat.le_of_eq (congrArg List.length hin)
  have hbound := ((Plan.inSub [] q.query q.filter).covered parser).2 hlength
  have hordered := Plan.ordered_of_inOrder parser _ hbound hseparate hin
  rw [q.bound_inSub] at hbound
  rw [q.ordered_inSub] at hordered
  exact ⟨hbound, hordered⟩

end OpenVoxDB.Plans
