import Mathlib
import OpenVoxDB.PlanSql

/-!
# The parameters of a plan

`extract-all-params` collects the parameters of a plan in a post-order walk.
A query record has its selection walked before its filter and its calls after
it. The fact name of a selection and the arguments of a call go in front of
what has been collected; everything else goes behind it.
-/

namespace OpenVoxDB.Plans

variable {V : Type} (parser : FieldParser)

/-- The parameters of `parse-dot-query-with-array-elements`. -/
def pathParams (path : List Step) (value : V) : List (Param V) :=
  path.map .step ++ [.jsonb value, firstStep path]

/-- The parameters that an expression of a filter adds behind the state. -/
def Plan.parameters : Plan V → List (Param V)
  | .fnBinary _ _ _ value | .binary _ _ value | .regex _ value | .inArray _ value
  | .arrayBinary _ value | .arrayRegex _ value | .jsonbScalarRegex _ value => [.value value]
  | .jsonContains field _ value => containsParams (parser.names field) value
  | .jsonbPathBinary _ field _ value => pathParams (pathSteps parser field) value
  | _ => []

/-- The calls of a query, each in front of the state. -/
def extractCalls (calls : List FnExpression) (state : List (Param V)) : List (Param V) :=
  calls.foldl (fun state call => call.parameters ++ state) state

/-- `:selection-params` -/
def QueryRec.selectionParams (query : QueryRec V) : List (Param V) :=
  query.selection.source.parameters

mutual

/-- `extract-params` over a filter in post-order. -/
def Plan.extract : Plan V → List (Param V) → List (Param V)
  | .inSub _ query filter, state =>
    extractCalls query.call (extractFilter filter (query.selectionParams ++ state))
  | .and clauses, state | .or clauses, state => extractClauses clauses state
  | .not clause, state => clause.extract state
  | plan, state => state ++ plan.parameters parser

def extractFilter : Option (Plan V) → List (Param V) → List (Param V)
  | none, state => state
  | some plan, state => plan.extract state

def extractClauses : List (Plan V) → List (Param V) → List (Param V)
  | [], state => state
  | plan :: plans, state => extractClauses plans (plan.extract state)

end

/-- `extract-all-params` -/
def Query.extractAllParams (q : Query V) : List (Param V) :=
  extractCalls q.query.call (extractFilter parser q.filter (q.query.selectionParams ++ []))

/-! ## What a walk puts in front and behind -/

/-- What the calls of a query record put in front of the state. -/
def QueryRec.lead (query : QueryRec V) : List (Param V) :=
  (query.call.map FnExpression.parameters).reverse.flatten

mutual

def Plan.front : Plan V → List (Param V)
  | .inSub _ query filter => query.lead ++ frontFilter filter ++ query.selectionParams
  | .and clauses | .or clauses => frontClauses clauses
  | .not clause => clause.front
  | _ => []

def frontFilter : Option (Plan V) → List (Param V)
  | none => []
  | some plan => plan.front

def frontClauses : List (Plan V) → List (Param V)
  | [] => []
  | plan :: plans => frontClauses plans ++ plan.front

end

mutual

def Plan.back : Plan V → List (Param V)
  | .inSub _ _ filter => backFilter filter
  | .and clauses | .or clauses => backClauses clauses
  | .not clause => clause.back
  | plan => plan.parameters parser

def backFilter : Option (Plan V) → List (Param V)
  | none => []
  | some plan => plan.back

def backClauses : List (Plan V) → List (Param V)
  | [] => []
  | plan :: plans => plan.back ++ backClauses plans

end

theorem extractCalls_eq (calls : List FnExpression) (state : List (Param V)) :
    extractCalls calls state = (calls.map FnExpression.parameters).reverse.flatten ++ state := by
  induction calls generalizing state with
  | nil => rfl
  | cons call calls ih =>
    rw [extractCalls, List.foldl_cons, ← extractCalls, ih]
    simp

theorem extractClauses_eq (clauses : List (Plan V))
    (ih : ∀ plan ∈ clauses, ∀ state, plan.extract parser state =
      plan.front ++ state ++ plan.back parser) (state : List (Param V)) :
    extractClauses parser clauses state =
      frontClauses clauses ++ state ++ backClauses parser clauses := by
  induction clauses generalizing state with
  | nil => simp [extractClauses, frontClauses, backClauses]
  | cons plan plans ihplans =>
    rw [extractClauses, ih plan List.mem_cons_self,
      ihplans fun p hp => ih p (List.mem_cons_of_mem _ hp)]
    simp [frontClauses, backClauses]

/-- A walk adds to both ends of the state and leaves what is in it. -/
theorem Plan.extract_eq (plan : Plan V) (state : List (Param V)) :
    plan.extract parser state = plan.front ++ state ++ plan.back parser := by
  induction plan using Plan.ind generalizing state with
  | inSub columns query filter ih =>
    rw [Plan.extract, extractCalls_eq, Plan.front, Plan.back, QueryRec.lead]
    cases filter with
    | none => simp [extractFilter, frontFilter, backFilter]
    | some plan => simp [extractFilter, frontFilter, backFilter, ih plan rfl]
  | and clauses ih | or clauses ih =>
    rw [Plan.extract, Plan.front, Plan.back]
    exact extractClauses_eq parser clauses ih state
  | not clause ih =>
    rw [Plan.extract, Plan.front, Plan.back]
    exact ih state
  | _ => simp [Plan.extract, Plan.front, Plan.back]

theorem Query.extractAllParams_eq (q : Query V) :
    q.extractAllParams parser =
      q.query.lead ++ frontFilter q.filter ++ q.query.selectionParams ++
        backFilter parser q.filter := by
  rw [Query.extractAllParams, extractCalls_eq, QueryRec.lead]
  cases q.filter with
  | none => simp [extractFilter, frontFilter, backFilter]
  | some plan => simp [extractFilter, frontFilter, backFilter, Plan.extract_eq]

/-! ## The placeholders -/

@[simp] theorem marks_nil : marks ([] : List (Token V)) = [] := rfl

@[simp] theorem marks_plain (text : String) (tokens : List (Token V)) :
    marks (plain text :: tokens) = marks tokens := rfl

@[simp] theorem marks_sql (s : Sql) (tokens : List (Token V)) :
    marks (.sql s :: tokens) = marks tokens := rfl

@[simp] theorem marks_field (field : Field) (tokens : List (Token V)) :
    marks (field.token :: tokens) = marks tokens := rfl

@[simp] theorem marks_mark (p : Param V) (tokens : List (Token V)) :
    marks (.mark p :: tokens) = p :: marks tokens := rfl

@[simp] theorem marks_append (xs ys : List (Token V)) : marks (xs ++ ys) = marks xs ++ marks ys :=
  List.filterMap_append

theorem marks_flatMap {α : Type} (f : α → List (Token V)) (xs : List α) :
    marks (xs.flatMap f) = xs.flatMap fun x => marks (f x) := by
  induction xs with
  | nil => rfl
  | cons x xs ih => rw [List.flatMap_cons, marks_append, ih, List.flatMap_cons]

theorem marks_map_field {α : Type} (f : α → Field) (xs : List α) :
    marks (xs.map fun x => ((f x).token : Token V)) = [] := by
  induction xs with
  | nil => rfl
  | cons x xs ih => rw [List.map_cons, marks_field, ih]

theorem FnExpression.marks_tokens (call : FnExpression) :
    marks (call.tokens : List (Token V)) = (call.params.filter Arg.bound).map .arg := by
  have harg (a : Arg) : marks [plain ", ", (a.token : Token V)] =
      if a.bound then [.arg a] else [] := by
    cases a <;> rfl
  simp only [FnExpression.tokens, marks_append, marks_plain, marks_field, marks_nil,
    marks_flatMap, harg, List.nil_append, List.append_nil]
  induction call.params with
  | nil => rfl
  | cons a as ih => cases h : a.bound <;> simp_all

theorem FromTables.marks_tokens (source : FromTables V) :
    marks source.tokens = source.parameters := by
  cases source with
  | tables items =>
    induction items with
    | nil => rfl
    | cons t ts ih => exact ih
  | factNamed name => rfl

@[simp] theorem Join.marks_tokens (j : Join) : marks (j.tokens : List (Token V)) = [] := rfl

/-- The placeholders of the calls of a query. -/
def QueryRec.callMarks (query : QueryRec V) : List (Param V) :=
  query.call.flatMap fun call => (call.params.filter Arg.bound).map .arg

@[simp] theorem marks_map_sql (xs : List Sql) : marks (xs.map (Token.sql (V := V))) = [] := by
  induction xs with
  | nil => rfl
  | cons s xs ih => exact ih

theorem QueryRec.marks_tokens (query : QueryRec V) (filter : List (Token V)) :
    marks (query.tokens filter) =
      query.callMarks ++ query.selectionParams ++ marks filter := by
  simp [QueryRec.tokens, QueryRec.selectTokens, marks_flatMap, FnExpression.marks_tokens,
    FromTables.marks_tokens, QueryRec.callMarks, QueryRec.selectionParams,
    marks_map_field (fun p : String × Column => p.2.field), marks_map_field (fun f : Field => f)]

theorem marks_pathMatch (column : Column) (path : List Step) :
    marks (pathMatch column path : List (Token V)) = [] := rfl

theorem marks_pathRegexMatch (column : Column) (path : List Step) :
    marks (pathRegexMatch column path : List (Token V)) = [] := rfl

theorem marks_jsonbPathTokens (operator : String) (column : Column) (path : List Step)
    (value : V) : marks (jsonbPathTokens operator column path value) = pathParams path value := by
  have hsteps : path.flatMap (fun s => [Param.step (V := V) s]) = path.map .step := by
    induction path with
    | nil => rfl
    | cons s path ih => simp [ih]
  unfold jsonbPathTokens
  split <;> simp [pathParams, marks_flatMap, hsteps]

/-- What an expression has for a subquery or a junction: nothing of its own. -/
def Plan.isExpression : Plan V → Bool
  | .inSub _ _ _ | .and _ | .or _ | .not _ => false
  | _ => true

theorem Plan.marks_expression (plan : Plan V) (h : plan.isExpression = true) :
    marks (plan.tokens parser) = plan.parameters parser := by
  cases plan with
  | inSub | and | or | not => simp [Plan.isExpression] at h
  | jsonContains field column value =>
    rw [Plan.tokens, Plan.parameters]
    simp only [containsParams]
    split <;> simp
  | jsonbPathBinary operator field column value =>
    rw [Plan.tokens, Plan.parameters, marks_jsonbPathTokens]
  | pathArrayAnyMatch column paths =>
    simp [Plan.tokens, Plan.parameters, marks_flatMap, marks_pathMatch]
  | pathArrayMatch column path => simp [Plan.tokens, Plan.parameters, marks_pathMatch]
  | pathArrayRegexMatch column path => simp [Plan.tokens, Plan.parameters, marks_pathRegexMatch]
  | _ => simp [Plan.tokens, Plan.parameters]

/-! ## When the parameters are in order -/

/-- Every argument of a call of the query has a placeholder. -/
def QueryRec.bound (query : QueryRec V) : Bool := query.call.all fun call => call.params.all Arg.bound

/-- The parameters that the record of a query brings, call by call. -/
def QueryRec.blocks (query : QueryRec V) : List (List (Param V)) :=
  query.call.map FnExpression.parameters

/-- The calls of a query bring parameters. -/
def QueryRec.calls (query : QueryRec V) : Bool := query.blocks.any fun block => !block.isEmpty

/-- The selection of a query brings parameters. -/
def QueryRec.selects (query : QueryRec V) : Bool := !query.selectionParams.isEmpty

/-- No more than one of the calls of a query brings parameters. -/
def QueryRec.aligned (query : QueryRec V) : Bool :=
  (query.blocks.filter fun block => !block.isEmpty).length ≤ 1

mutual

def Plan.bound : Plan V → Bool
  | .inSub _ query filter => query.bound && boundFilter filter
  | .and clauses | .or clauses => boundClauses clauses
  | .not clause => clause.bound
  | _ => true

def boundFilter : Option (Plan V) → Bool
  | none => true
  | some plan => plan.bound

def boundClauses : List (Plan V) → Bool
  | [] => true
  | plan :: plans => plan.bound && boundClauses plans

end

mutual

/-- A subquery in the clause brings parameters of its own. -/
def Plan.leads : Plan V → Bool
  | .inSub _ query filter => query.calls || query.selects || leadsFilter filter
  | .and clauses | .or clauses => leadsClauses clauses
  | .not clause => clause.leads
  | _ => false

def leadsFilter : Option (Plan V) → Bool
  | none => false
  | some plan => plan.leads

def leadsClauses : List (Plan V) → Bool
  | [] => false
  | plan :: plans => plan.leads || leadsClauses plans

end

mutual

/-- The clause has a parameter. -/
def Plan.binds : Plan V → Bool
  | .inSub _ query filter => query.calls || query.selects || bindsFilter filter
  | .and clauses | .or clauses => bindsClauses clauses
  | .not clause => clause.binds
  | .null _ _ | .pathArrayMatch _ _ | .pathArrayAnyMatch _ _ | .pathArrayRegexMatch _ _ => false
  | _ => true

def bindsFilter : Option (Plan V) → Bool
  | none => false
  | some plan => plan.binds

def bindsClauses : List (Plan V) → Bool
  | [] => false
  | plan :: plans => plan.binds || bindsClauses plans

end

mutual

/-- No subquery that brings parameters of its own stands behind a clause or a selection with
a parameter. -/
def Plan.ordered : Plan V → Bool
  | .inSub _ query filter =>
    query.aligned && orderedFilter filter && !(query.selects && leadsFilter filter)
  | .and clauses | .or clauses => orderedClauses clauses
  | .not clause => clause.ordered
  | _ => true

def orderedFilter : Option (Plan V) → Bool
  | none => true
  | some plan => plan.ordered

def orderedClauses : List (Plan V) → Bool
  | [] => true
  | plan :: plans =>
    plan.ordered && orderedClauses plans && !(plan.binds && leadsClauses plans)

end

theorem FnExpression.bound_params (call : FnExpression) (h : call.params.all Arg.bound = true) :
    (call.params.filter Arg.bound).map Param.arg = (call.parameters : List (Param V)) := by
  rw [List.filter_eq_self.mpr (List.all_eq_true.mp h), FnExpression.parameters]

/-- The placeholders of the calls are their parameters, call by call. -/
theorem QueryRec.callMarks_of_bound (query : QueryRec V) (h : query.bound = true) :
    query.callMarks = (query.call.map FnExpression.parameters).flatten := by
  rw [QueryRec.callMarks, List.flatMap_def]
  congr 1
  exact List.map_congr_left fun call hcall =>
    call.bound_params (List.all_eq_true.mp h call hcall)

theorem QueryRec.lead_perm (query : QueryRec V) (h : query.bound = true) :
    query.lead.Perm query.callMarks := by
  rw [query.callMarks_of_bound h, QueryRec.lead]
  exact (List.reverse_perm _).flatten

theorem flatten_filter_nonempty {α : Type} (blocks : List (List α)) :
    (blocks.filter fun block => !block.isEmpty).flatten = blocks.flatten := by
  induction blocks with
  | nil => rfl
  | cons block blocks ih => cases block <;> simp [ih]

/-- Blocks of which one at most is there, read in either order. -/
theorem flatten_reverse_of_one {α : Type} (blocks : List (List α))
    (h : (blocks.filter fun block => !block.isEmpty).length ≤ 1) :
    blocks.reverse.flatten = blocks.flatten := by
  rw [← flatten_filter_nonempty blocks, ← flatten_filter_nonempty blocks.reverse,
    List.filter_reverse]
  match hb : blocks.filter fun block => !block.isEmpty with
  | [] | [_] => simp [hb]
  | _ :: _ :: _ => simp [hb] at h

theorem QueryRec.lead_of_aligned (query : QueryRec V) (hbound : query.bound = true)
    (h : query.aligned = true) : query.lead = query.callMarks := by
  rw [query.callMarks_of_bound hbound, QueryRec.lead]
  exact flatten_reverse_of_one _ (of_decide_eq_true h)

theorem QueryRec.lead_eq_nil_iff (query : QueryRec V) : query.lead = [] ↔ query.calls = false := by
  simp [QueryRec.lead, QueryRec.calls, QueryRec.blocks]

theorem QueryRec.callMarks_eq_nil_iff (query : QueryRec V) (hbound : query.bound = true) :
    query.callMarks = [] ↔ query.calls = false := by
  rw [← query.lead_eq_nil_iff, ← List.perm_nil, ← List.perm_nil]
  exact ⟨fun h => (query.lead_perm hbound).trans h, fun h => (query.lead_perm hbound).symm.trans h⟩

theorem QueryRec.selectionParams_eq_nil_iff (query : QueryRec V) :
    query.selectionParams = [] ↔ query.selects = false := by
  simp [QueryRec.selects]

/-! ## Every parameter has its placeholder -/

theorem clauses_perm (clauses : List (Plan V)) (hbound : boundClauses clauses = true)
    (ih : ∀ plan ∈ clauses, plan.bound = true →
      (plan.front ++ plan.back parser).Perm (marks (plan.tokens parser))) :
    (frontClauses clauses ++ backClauses parser clauses).Perm
      (marks (clausesTokens parser clauses)) := by
  induction clauses with
  | nil => simp [frontClauses, backClauses, clausesTokens]
  | cons plan plans ihplans =>
    rw [boundClauses, Bool.and_eq_true] at hbound
    have hplan := ih plan List.mem_cons_self hbound.1
    have hplans := ihplans hbound.2 fun p hp => ih p (List.mem_cons_of_mem _ hp)
    rw [frontClauses, backClauses, clausesTokens, marks_append]
    calc frontClauses plans ++ plan.front ++ (plan.back parser ++ backClauses parser plans)
        = frontClauses plans ++ (plan.front ++ plan.back parser) ++ backClauses parser plans := by
          simp
      _ |>.Perm (plan.front ++ plan.back parser ++ frontClauses plans ++
          backClauses parser plans) := List.perm_append_comm.append_right _
      _ = (plan.front ++ plan.back parser) ++
          (frontClauses plans ++ backClauses parser plans) := by simp
      _ |>.Perm _ := hplan.append hplans

theorem Plan.perm (plan : Plan V) (hbound : plan.bound = true) :
    (plan.front ++ plan.back parser).Perm (marks (plan.tokens parser)) := by
  induction plan using Plan.ind with
  | inSub columns query filter ih =>
    rw [Plan.bound, Bool.and_eq_true] at hbound
    rw [Plan.front, Plan.back]
    have hfilter : (frontFilter filter ++ backFilter parser filter).Perm
        (marks (filterTokens parser filter)) := by
      cases filter with
      | none => simp [frontFilter, backFilter, filterTokens]
      | some plan => exact ih plan rfl hbound.2
    have htext : marks (Plan.tokens parser (.inSub columns query filter)) =
        query.callMarks ++ (query.selectionParams ++ marks (filterTokens parser filter)) := by
      simp [Plan.tokens, marks_map_field (fun c : Column => c.field), QueryRec.marks_tokens]
    rw [htext, List.append_assoc, List.append_assoc]
    refine (query.lead_perm hbound.1).append ?_
    calc frontFilter filter ++ (query.selectionParams ++ backFilter parser filter)
        = frontFilter filter ++ query.selectionParams ++ backFilter parser filter := by simp
      _ |>.Perm (query.selectionParams ++ frontFilter filter ++ backFilter parser filter) :=
          List.perm_append_comm.append_right _
      _ = query.selectionParams ++ (frontFilter filter ++ backFilter parser filter) := by simp
      _ |>.Perm _ := hfilter.append_left _
  | and clauses ih | or clauses ih =>
    rw [Plan.bound] at hbound
    rw [Plan.front, Plan.back, Plan.tokens]
    simpa using clauses_perm parser clauses hbound ih
  | not clause ih =>
    rw [Plan.bound] at hbound
    rw [Plan.front, Plan.back, Plan.tokens]
    simpa using ih hbound
  | _ =>
    rw [Plan.marks_expression parser _ rfl]
    simp [Plan.front, Plan.back]

/-! ## In order, and out of order -/

theorem frontClauses_eq_nil_iff (clauses : List (Plan V))
    (ih : ∀ plan ∈ clauses, plan.front = [] ↔ plan.leads = false) :
    frontClauses clauses = [] ↔ leadsClauses clauses = false := by
  induction clauses with
  | nil => simp [frontClauses, leadsClauses]
  | cons plan plans ihplans =>
    rw [frontClauses, leadsClauses, List.append_eq_nil_iff, Bool.or_eq_false_iff,
      ih plan List.mem_cons_self, ihplans fun p hp => ih p (List.mem_cons_of_mem _ hp), and_comm]

theorem Plan.front_eq_nil_iff (plan : Plan V) : plan.front = [] ↔ plan.leads = false := by
  induction plan using Plan.ind with
  | inSub columns query filter ih =>
    have hfilter : frontFilter filter = [] ↔ leadsFilter filter = false := by
      cases filter with
      | none => simp [frontFilter, leadsFilter]
      | some plan => rw [frontFilter, leadsFilter, ih plan rfl]
    rw [Plan.front, Plan.leads, List.append_eq_nil_iff, List.append_eq_nil_iff,
      Bool.or_eq_false_iff, Bool.or_eq_false_iff, query.lead_eq_nil_iff, hfilter,
      query.selectionParams_eq_nil_iff]
    exact and_right_comm
  | and clauses ih | or clauses ih =>
    rw [Plan.front, Plan.leads]
    exact frontClauses_eq_nil_iff clauses ih
  | not clause ih => rw [Plan.front, Plan.leads, ih]
  | _ => simp [Plan.front, Plan.leads]

theorem frontFilter_eq_nil_iff (filter : Option (Plan V)) :
    frontFilter filter = [] ↔ leadsFilter filter = false := by
  cases filter with
  | none => simp [frontFilter, leadsFilter]
  | some plan => rw [frontFilter, leadsFilter, plan.front_eq_nil_iff]

theorem marks_clauses_eq_nil_iff (clauses : List (Plan V)) (hbound : boundClauses clauses = true)
    (ih : ∀ plan ∈ clauses, plan.bound = true →
      (marks (plan.tokens parser) = [] ↔ plan.binds = false)) :
    marks (clausesTokens parser clauses) = [] ↔ bindsClauses clauses = false := by
  induction clauses with
  | nil => simp [clausesTokens, bindsClauses]
  | cons plan plans ihplans =>
    rw [boundClauses, Bool.and_eq_true] at hbound
    rw [clausesTokens, bindsClauses, marks_append, List.append_eq_nil_iff, Bool.or_eq_false_iff,
      ih plan List.mem_cons_self hbound.1,
      ihplans hbound.2 fun p hp => ih p (List.mem_cons_of_mem _ hp)]

theorem containsParams_ne_nil (path : List String) (value : V) :
    containsParams path value ≠ [] := by
  unfold containsParams
  split <;> simp

theorem Plan.marks_eq_nil_iff (plan : Plan V) (hbound : plan.bound = true) :
    marks (plan.tokens parser) = [] ↔ plan.binds = false := by
  induction plan using Plan.ind with
  | inSub columns query filter ih =>
    rw [Plan.bound, Bool.and_eq_true] at hbound
    have hfilter : marks (filterTokens parser filter) = [] ↔ bindsFilter filter = false := by
      cases filter with
      | none => simp [filterTokens, bindsFilter]
      | some plan => rw [filterTokens, bindsFilter, ih plan rfl hbound.2]
    rw [Plan.binds, Bool.or_eq_false_iff, Bool.or_eq_false_iff,
      ← query.callMarks_eq_nil_iff hbound.1, ← query.selectionParams_eq_nil_iff, ← hfilter]
    simp [Plan.tokens, QueryRec.marks_tokens, marks_map_field (fun c : Column => c.field),
      and_assoc]
  | and clauses ih | or clauses ih =>
    rw [Plan.bound] at hbound
    rw [Plan.binds, ← marks_clauses_eq_nil_iff parser clauses hbound ih]
    simp [Plan.tokens]
  | not clause ih =>
    rw [Plan.bound] at hbound
    rw [Plan.binds, ← ih hbound]
    simp [Plan.tokens]
  | jsonContains field column value =>
    rw [Plan.marks_expression parser _ rfl]
    simp [Plan.parameters, Plan.binds, containsParams_ne_nil]
  | _ =>
    rw [Plan.marks_expression parser _ rfl]
    simp [Plan.parameters, Plan.binds, pathParams]

/-- What a walk collects from a clause is in the order of the text. -/
def Plan.inOrder (plan : Plan V) : Prop :=
  plan.front ++ plan.back parser = marks (plan.tokens parser)

theorem clauses_inOrder (clauses : List (Plan V)) (hbound : boundClauses clauses = true)
    (h : orderedClauses clauses = true)
    (ih : ∀ plan ∈ clauses, plan.bound = true → plan.ordered = true → plan.inOrder parser) :
    frontClauses clauses ++ backClauses parser clauses = marks (clausesTokens parser clauses) := by
  induction clauses with
  | nil => simp [frontClauses, backClauses, clausesTokens]
  | cons plan plans ihplans =>
    rw [boundClauses, Bool.and_eq_true] at hbound
    simp only [orderedClauses, Bool.and_eq_true, Bool.not_eq_true', Bool.and_eq_false_iff] at h
    obtain ⟨⟨hplan, hplans⟩, hbehind⟩ := h
    have hone : plan.front ++ plan.back parser = marks (plan.tokens parser) :=
      ih plan List.mem_cons_self hbound.1 hplan
    have hrest := ihplans hbound.2 hplans fun p hp => ih p (List.mem_cons_of_mem _ hp)
    rw [frontClauses, backClauses, clausesTokens, marks_append]
    rcases hbehind with hbinds | hleads
    · have hnil := (plan.marks_eq_nil_iff parser hbound.1).mpr hbinds
      rw [hnil] at hone ⊢
      obtain ⟨hfront, hback⟩ := List.append_eq_nil_iff.mp hone
      rw [hfront, hback, List.append_nil, List.nil_append, List.nil_append, hrest]
    · have hfront := (frontClauses_eq_nil_iff plans fun p _ => p.front_eq_nil_iff).mpr hleads
      rw [hfront, List.nil_append] at hrest
      rw [hfront, List.nil_append, ← List.append_assoc, hone, hrest]

/-- A clause in which nothing stands behind what it has to stand in front of. -/
theorem Plan.inOrder_of_ordered (plan : Plan V) (hbound : plan.bound = true)
    (h : plan.ordered = true) : plan.inOrder parser := by
  induction plan using Plan.ind with
  | inSub columns query filter ih =>
    rw [Plan.bound, Bool.and_eq_true] at hbound
    simp only [Plan.ordered, Bool.and_eq_true, Bool.not_eq_true', Bool.and_eq_false_iff] at h
    obtain ⟨⟨haligned, hordered⟩, hselection⟩ := h
    have hfilter : frontFilter filter ++ backFilter parser filter =
        marks (filterTokens parser filter) := by
      cases filter with
      | none => simp [frontFilter, backFilter, filterTokens]
      | some plan => exact ih plan rfl hbound.2 hordered
    have hswap : frontFilter filter ++ query.selectionParams ++ backFilter parser filter =
        query.selectionParams ++ (frontFilter filter ++ backFilter parser filter) := by
      rcases hselection with hselects | hleads
      · rw [query.selectionParams_eq_nil_iff.mpr hselects]
        simp
      · rw [(frontFilter_eq_nil_iff filter).mpr hleads]
        simp
    rw [Plan.inOrder, Plan.front, Plan.back, List.append_assoc, List.append_assoc,
      ← List.append_assoc (frontFilter filter), hswap, hfilter,
      query.lead_of_aligned hbound.1 haligned]
    simp [Plan.tokens, QueryRec.marks_tokens, marks_map_field (fun c : Column => c.field)]
  | and clauses ih | or clauses ih =>
    rw [Plan.bound] at hbound
    rw [Plan.ordered] at h
    rw [Plan.inOrder, Plan.front, Plan.back, Plan.tokens]
    simpa using clauses_inOrder parser clauses hbound h ih
  | not clause ih =>
    rw [Plan.bound] at hbound
    rw [Plan.ordered] at h
    rw [Plan.inOrder, Plan.front, Plan.back, Plan.tokens]
    simpa [Plan.inOrder] using ih hbound h
  | _ =>
    rw [Plan.inOrder, Plan.marks_expression parser _ rfl]
    simp [Plan.front, Plan.back]

end OpenVoxDB.Plans
