import Mathlib
import OpenVoxDB.SubqueryPlans

/-!
# Queries around a subquery

An `in` stands in a filter below connectives and in the filters of other subqueries. No node around
it is rewritten for its sake, so the plan of the whole query has the plan of the `in` in one place.
-/

namespace OpenVoxDB.Subqueries

open QueryExpansion InventoryRedirect Plans

variable {V Rows : Type}

/-! ## Plans that select the same rows -/

/-- The plans are the same but for subqueries that select the same rows. -/
inductive SameRows (rows : QueryRec V × Option (Plan V) → Rows) : Plan V → Plan V → Prop where
  | refl (p : Plan V) : SameRows rows p p
  | inSub (columns : List Column) (q q' : QueryRec V × Option (Plan V)) (h : rows q = rows q') :
      SameRows rows (.inSub columns q.1 q.2) (.inSub columns q'.1 q'.2)
  | and (before after : List (Plan V)) (p p' : Plan V) (h : SameRows rows p p') :
      SameRows rows (.and (before ++ p :: after)) (.and (before ++ p' :: after))
  | or (before after : List (Plan V)) (p p' : Plan V) (h : SameRows rows p p') :
      SameRows rows (.or (before ++ p :: after)) (.or (before ++ p' :: after))
  | not (p p' : Plan V) (h : SameRows rows p p') : SameRows rows (.not p) (.not p')

/-- The rows that a query selects, the same for filters that select the same rows. -/
structure Meaning (V Rows : Type) where
  rows : QueryRec V × Option (Plan V) → Rows
  congruent : ∀ query p p', SameRows rows p p' → rows (query, some p) = rows (query, some p')

theorem SameRows.rows_eq {rows : QueryRec V × Option (Plan V) → Rows} {columns : List Column}
    {q q' : QueryRec V × Option (Plan V)}
    (h : SameRows rows (.inSub columns q.1 q.2) (.inSub columns q'.1 q'.2)) :
    rows q = rows q' := by
  generalize hp : Plan.inSub columns q.1 q.2 = p at h
  generalize hp' : Plan.inSub columns q'.1 q'.2 = p' at h
  cases h with
  | refl p =>
    rw [← hp'] at hp
    injection hp with _ hquery hfilter
    rw [show q = q' from Prod.ext hquery hfilter]
  | inSub columns' s s' h =>
    injection hp with _ hquery hfilter
    injection hp' with _ hquery' hfilter'
    rw [show q = s from Prod.ext hquery hfilter, show q' = s' from Prod.ext hquery' hfilter']
    exact h
  | and => cases hp
  | or => cases hp
  | not => cases hp

/-- Both queries are refused, or their plans select the same rows. -/
def Alike (M : Meaning V Rows) (p p' : Option (Option (Plan V))) : Prop :=
  (p = none ∧ p' = none) ∨ ∃ a b, p = some (some a) ∧ p' = some (some b) ∧ SameRows M.rows a b

/-! ## Nodes that nothing rewrites -/

/-- The operators that a node with a subquery has below it. -/
def standingOperators : List String := ["in", "and", "or", "not"]

/-- A node that the rows and the redirection leave alone, as an operand too. -/
structure Steady (a : Ast) : Prop where
  made : ∃ op x args, a = .made (.str op :: x :: args) ∧ op ∈ standingOperators
  value : valueTest a = none
  fact : factTest a = none
  named : ∀ name test, namedTest a = some (name, test) → factTest test = none

namespace Steady

theorem removable {a : Ast} (h : Steady a) : removable a = false := by
  obtain ⟨op, x, args, rfl, -⟩ := h.made
  exact removable_vec_cons_cons _ _ _ _

theorem isVector {a : Ast} (h : Steady a) : isVector a = true := by
  obtain ⟨op, x, args, rfl, -⟩ := h.made
  rfl

theorem str {a : Ast} (h : Steady a) : a.str? = none := by
  obtain ⟨op, x, args, rfl, -⟩ := h.made
  rfl

theorem emptyClause {a : Ast} (h : Steady a) : emptyClause a = some false := by
  obtain ⟨op, x, args, rfl, -⟩ := h.made
  rfl

theorem ne_eq {op : String} (h : op ∈ standingOperators) : op ≠ "=" := by
  rintro rfl
  exact absurd h (by decide)

theorem nodeActiveIs {a : Ast} (h : Steady a) (b : Bool) : nodeActiveIs b a = false := by
  obtain ⟨op, x, args, rfl, hop⟩ := h.made
  exact nodeActiveIs_of_ne b op _ (ne_eq hop)

theorem typeTest {a : Ast} (h : Steady a) : typeTest a = false := by
  obtain ⟨op, x, args, rfl, hop⟩ := h.made
  have hne := ne_eq hop
  unfold InventoryRedirect.typeTest
  split
  · next heq =>
    cases heq
    simp [Ast.isStr, Ast.str?, hne]
  · rfl

theorem noFacts {a : Ast} (h : Steady a) : NoFacts a := by
  obtain ⟨op, x, args, rfl, hop⟩ := h.made
  intro ctx entity filter heq
  cases heq
  simp only [standingOperators, List.mem_cons, List.not_mem_nil, or_false] at hop
  obtain rfl | rfl | rfl | rfl := hop <;> rfl

theorem noFact {a : Ast} (h : Steady a) (w : String) (hw : w ∉ standingOperators) :
    a.tagged? w = none := by
  obtain ⟨op, x, args, rfl, hop⟩ := h.made
  have hne : op ≠ w := by
    rintro rfl
    exact hw hop
  cases args with
  | nil => simp [Ast.tagged?, Ast.isStr, Ast.str?, hne]
  | cons y args => rfl

end Steady

theorem redirected_of_steady (env : QueryExpansion.Env) (e : EntityName) (columns : Columns)
    (f : Ast) (h : Steady f) : redirected env e columns f = none := by
  unfold redirected
  split
  · cases htest : namedTest f with
    | none => rfl
    | some test =>
      have hfact := h.named test.1 test.2 htest
      simp [hfact]
  · rfl

theorem namedTest_of_head (ctx : Context) (op : String) (args : List Ast) (h : op ≠ "and") :
    namedTest (.vec ctx (.str op :: args)) = none := by
  unfold namedTest
  split
  · next heq =>
    cases heq
    simp [Ast.isStr, Ast.str?, h]
  · rfl

theorem namedTest_eq_some (a name test : Ast) (h : namedTest a = some (name, test)) :
    ∃ ctx ctx' conj eq field, a = .vec ctx [conj, .vec ctx' [eq, field, name], test] ∧
      eq.isStr "=" = true := by
  unfold namedTest at h
  split at h
  · split at h
    · next hop =>
      cases h
      simp only [Bool.and_eq_true] at hop
      exact ⟨_, _, _, _, _, rfl, hop.1.2⟩
    · cases h
  · cases h

/-- An `in` of a subquery. -/
theorem steady_inMade (cols : Columns) (op : String) (x y : Ast) (args : List Ast) :
    Steady (inMade cols (.made (.str op :: x :: y :: args))) := by
  constructor
  · exact ⟨"in", _, _, rfl, by decide⟩
  · simp [inMade, valueTest, isVector]
  · simp [inMade, factTest, valueTest, isVector, Ast.isStr, Ast.str?]
  · intro name test htest
    rw [inMade, namedTest_of_head _ _ _ (by decide)] at htest
    cases htest

/-- A node that compares a text with a column that holds serialized values. -/
theorem steady_changed (op c s : String) (hop : op ∈ standingOperators) (hc : c ≠ "value") :
    Steady (.made [.str op, .str c, .str s]) := by
  constructor
  · exact ⟨op, _, _, rfl, hop⟩
  · simp [valueTest, Ast.isStr, Ast.str?, hc]
  · simp [factTest, valueTest, typeTest, Ast.isStr, Ast.str?, hc]
  · intro name test htest
    cases htest

/-- A connective with a node that stands. -/
theorem steady_connective (op : String) (before after : List Ast) (h : Ast)
    (hop : op ∈ standingOperators) (hsteady : Steady h) :
    Steady (.made (.str op :: (before ++ h :: after))) := by
  have hvector := hsteady.isVector
  have hstr := hsteady.str
  have hfirst : valueTest (.made [.str op, h, after.headD h]) = none := by
    simp [valueTest, Ast.isStr, hstr]
  have hsecond : ∀ x, valueTest (.made [.str op, x, h]) = none := by
    intro x
    simp [valueTest, hvector]
  constructor
  · cases before with
    | nil => exact ⟨op, h, after, rfl, hop⟩
    | cons x before => exact ⟨op, x, before ++ h :: after, rfl, hop⟩
  · obtain _ | ⟨x, _ | ⟨y, before⟩⟩ := before
    · obtain _ | ⟨y, _ | ⟨z, after⟩⟩ := after
      · rfl
      · exact hfirst
      · rfl
    · cases after with
      | nil => exact hsecond x
      | cons y after => rfl
    · cases before with
      | nil => rfl
      | cons z before => rfl
  · obtain _ | ⟨x, _ | ⟨y, before⟩⟩ := before
    · obtain _ | ⟨y, _ | ⟨z, after⟩⟩ := after
      · rfl
      · have htype := hsteady.typeTest
        have hfirst : valueTest (.made [.str op, h, y]) = none := hfirst
        simp [factTest, hfirst, htype]
      · rfl
    · cases after with
      | nil =>
        have hvalue := hsteady.value
        simp [factTest, hsecond x, hvalue]
      | cons y after => rfl
    · cases before with
      | nil => rfl
      | cons z before => rfl
  · intro name test htest
    obtain ⟨ctx, ctx', conj, eq, field, heq, hop⟩ := namedTest_eq_some _ name test htest
    injection heq with _ hargs
    injection hargs with _ hargs
    obtain _ | ⟨x, before⟩ := before
    · injection hargs with hfirst _
      obtain ⟨w, x, args, hmade, hw⟩ := hsteady.made
      rw [hfirst] at hmade
      injection hmade with _ hlist
      injection hlist with hhead _
      rw [hhead] at hop
      have hne := Steady.ne_eq hw
      simp [Ast.isStr, Ast.str?, hne] at hop
    · injection hargs with _ hlast
      cases before with
      | nil =>
        injection hlast with hlast _
        rw [← hlast]
        exact hsteady.fact
      | cons y before =>
        injection hlast with _ hnil
        exact absurd hnil (by simp)

/-! ## Connectives -/

inductive Connective where
  | and
  | or
  | not
  deriving DecidableEq, Repr

namespace Connective

def text : Connective → String
  | and => "and"
  | or => "or"
  | not => "not"

theorem standing (c : Connective) : c.text ∈ standingOperators := by
  cases c <;> decide

theorem quiet (c : Connective) : c.text ∉ ["=", ">", "<", "<=", ">=", "~", "subquery"] ∧
    c.text ≠ "extract" ∧ c.text ≠ "in" ∧ c.text ≠ "from" := by
  cases c <;> decide

end Connective

/-- The name that the rows for any operator read. -/
def leading : List Ast → List Ast → Option String
  | [x], [] => x.str?
  | _, _ => none

/-- The names that these rows rewrite. -/
def rewrittenNames : List String := ["new_value", "old_value", "tag"]

theorem activeOrInactiveRow_left (op h y : Ast) (hsteady : Steady h) :
    activeOrInactiveRow op h y = none := by
  simp [activeOrInactiveRow, hsteady.nodeActiveIs]

theorem activeOrInactiveRow_right (op x h : Ast) (hsteady : Steady h) :
    activeOrInactiveRow op x h = none := by
  simp [activeOrInactiveRow, hsteady.nodeActiveIs]

theorem expandQueryNode_connective (env : QueryExpansion.Env) (ctx : Context) (c : Connective)
    (before after : List Ast) (h : Ast) (hsteady : Steady h)
    (hlead : ∀ w, leading before after = some w → w ∉ rewrittenNames) :
    expandQueryNode env (.vec ctx (.str c.text :: (before ++ h :: after))) = .ok none := by
  obtain ⟨hop, hextract, hin, -⟩ := c.quiet
  have hnone : ∀ x y, x.isOp rewrittenNames = false → activeOrInactiveRow (.str c.text) x y = none →
      expandQueryNode env (.vec ctx [.str c.text, x, y]) = .ok none := fun x y hx hor =>
    expandQueryNode_none env ctx c.text x y hop hx (fun h => absurd h hin)
      (extractRow_of_ne ctx _ x y hextract) hor
  obtain _ | ⟨x, _ | ⟨y, before⟩⟩ := before
  · obtain _ | ⟨y, _ | ⟨z, after⟩⟩ := after
    · rfl
    · exact hnone h y (by simp [Ast.isOp, hsteady.str]) (activeOrInactiveRow_left _ h y hsteady)
    · rfl
  · cases after with
    | nil =>
      apply hnone x h _ (activeOrInactiveRow_right _ x h hsteady)
      cases hx : x.str? with
      | none => simp [Ast.isOp, hx]
      | some w => simpa [Ast.isOp, hx] using hlead w hx
    | cons y after => rfl
  · cases before with
    | nil => rfl
    | cons z before => rfl

theorem validateBinaryOperators_connective (env : QueryExpansion.Env) (ctx : Context)
    (c : Connective) (args : List Ast) :
    validateBinaryOperators env (.vec ctx (.str c.text :: args)) = validateOperands c.text args := by
  have hcomparison : ∀ x y, validateComparison env ctx c.text x y = none := by
    intro x y
    cases c <;> rfl
  obtain _ | ⟨a, _ | ⟨b, _ | ⟨d, rest⟩⟩⟩ := args
  · rfl
  · rfl
  · simp only [validateBinaryOperators, hcomparison, Option.getD_none]
  · rfl

theorem validateOperands_clause (c : Connective) (before after : List Ast) (h k : Ast)
    (hempty : emptyClause h = emptyClause k) :
    validateOperands c.text (before ++ h :: after) =
      validateOperands c.text (before ++ k :: after) := by
  have hmalformed : malformedClause (before ++ h :: after) =
      malformedClause (before ++ k :: after) := by
    simp only [malformedClause, List.findSome?_append, List.findSome?_cons, hempty]
  cases c with
  | and => simp [validateOperands, Connective.text, hmalformed]
  | or => simp [validateOperands, Connective.text]
  | not => simp [validateOperands, Connective.text]

/-- The operands around a clause that `validate-binary-operators` lets pass. -/
def wellFormed (c : Connective) (before after : List Ast) : Bool :=
  (validateOperands c.text (before ++ .made [.str c.text] :: after)).toOption.isSome

/-- The operands that are not elided. -/
def keptAll (clauses : List Ast) : List Ast := clauses.filter fun a => !removable a

theorem visit_connective (env : QueryExpansion.Env) (ctx : Context) (c : Connective)
    (before after : List Ast) (h : Ast) (hsteady : Steady h)
    (hlead : ∀ w, leading before after = some w → w ∉ rewrittenNames) :
    (visit env (.vec ctx (.str c.text :: (before ++ h :: after)))).toOption =
      if wellFormed c before after then
        some (.made (.str c.text :: (keptAll before ++ h :: keptAll after)))
      else none := by
  have hnode := expandQueryNode_connective env ctx c before after h hsteady hlead
  have hvalid := validateBinaryOperators_connective env ctx c (before ++ h :: after)
  have hclause := validateOperands_clause c before after h (.made [.str c.text])
    hsteady.emptyClause
  have hkept : (before ++ h :: after).filter (fun a => !removable a) =
      keptAll before ++ h :: keptAll after := by
    simp [keptAll, List.filter_append, hsteady.removable]
  rw [hclause] at hvalid
  cases hresult : validateOperands c.text (before ++ .made [.str c.text] :: after) with
  | error e =>
    rw [hresult] at hvalid
    simp only [visit, hnode, bind, Except.bind, Option.getD_none, hvalid, wellFormed, hresult]
    rfl
  | ok u =>
    rw [hresult] at hvalid
    simp only [visit, hnode, bind, Except.bind, Option.getD_none, hvalid, wellFormed, hresult,
      pure, Except.pure, removeElidedNodes, Except.toOption, Option.isSome_some, if_true]
    rw [List.filter_cons, hkept]
    rfl

variable (E : Engine V)

namespace Engine

theorem pushAll_append (x : Entity V) (l m : List Ast) :
    E.pushAll x (l ++ m) = (do
      let a ← E.pushAll x l
      let b ← E.pushAll x m
      some (a ++ b)) := by
  induction l with
  | nil =>
    cases hm : E.pushAll x m with
    | none => simp [pushAll, hm]
    | some b => simp [pushAll, hm]
  | cons q l ih =>
    simp only [List.cons_append, pushAll, ih]
    cases E.pushDown x q with
    | none => rfl
    | some q' =>
      cases E.pushAll x l with
      | none => rfl
      | some a =>
        cases E.pushAll x m with
        | none => rfl
        | some b => rfl

theorem planAll_append (x : Entity V) (l m : List Ast) :
    E.planAll x (l ++ m) = (do
      let a ← E.planAll x l
      let b ← E.planAll x m
      some (a ++ b)) := by
  induction l with
  | nil =>
    cases hm : E.planAll x m with
    | none => simp [planAll, hm]
    | some b => simp [planAll, hm]
  | cons q l ih =>
    simp only [List.cons_append, planAll, ih]
    cases E.plan x q with
    | none => rfl
    | some p =>
      cases p with
      | none => rfl
      | some p =>
        cases E.planAll x l with
        | none => rfl
        | some a =>
          cases E.planAll x m with
          | none => rfl
          | some b => rfl

/-- Clauses after the first two passes. -/
def preparedAll (x : Entity V) (clauses : List Ast) : Option (List Ast) := do
  let pushed ← E.pushAll x clauses
  (expandAll E.env pushed).toOption

end Engine

theorem expandAll_cons (env : QueryExpansion.Env) (q : Ast) (l : List Ast) :
    (expandAll env (q :: l)).toOption = (do
      let h ← (expandUserQuery env q).toOption
      let a ← (expandAll env l).toOption
      some (h :: a)) := by
  simp only [expandAll]
  cases expandUserQuery env q with
  | error e => rfl
  | ok h =>
    cases expandAll env l with
    | error e => rfl
    | ok a => rfl

theorem expandAll_around (env : QueryExpansion.Env) (l m : List Ast) (q : Ast) :
    (expandAll env (l ++ q :: m)).toOption = (do
      let a ← (expandAll env l).toOption
      let h ← (expandUserQuery env q).toOption
      let b ← (expandAll env m).toOption
      some (a ++ h :: b)) := by
  induction l with
  | nil => exact expandAll_cons env q m
  | cons y l ih =>
    rw [List.cons_append, expandAll_cons, expandAll_cons, ih]
    cases (expandUserQuery env y).toOption with
    | none => rfl
    | some y' =>
      cases (expandAll env l).toOption with
      | none => rfl
      | some a =>
        cases (expandUserQuery env q).toOption with
        | none => rfl
        | some h =>
          cases (expandAll env m).toOption with
          | none => rfl
          | some b => rfl

theorem expand_vec (env : QueryExpansion.Env) (ctx : Context) (xs : List Ast) :
    (expandUserQuery env (.vec ctx xs)).toOption =
      (expandAll env xs).toOption.bind fun ys => (visit env (.vec ctx ys)).toOption := by
  rw [expandUserQuery]
  cases expandAll env xs with
  | error e => rfl
  | ok ys => rfl

namespace Engine

/-- A connective around a clause that is prepared. -/
def around (x : Entity V) (c : Connective) (before after : List Ast) (h : Ast) : Option Ast := do
  let b ← E.preparedAll x before
  let a ← E.preparedAll x after
  (visit E.env (.vec x.context (.str c.text :: (b ++ h :: a)))).toOption

theorem prepared_connective (x : Entity V) (ctx : Context) (c : Connective)
    (before after : List Ast) (q : Ast) :
    E.prepared x (.vec ctx (.str c.text :: (before ++ q :: after))) =
      (E.prepared x q).bind (E.around x c before after) := by
  have hop : (Ast.str c.text).isOp connectives = true := by cases c <;> decide
  have hpush : E.pushDown x (.vec ctx (.str c.text :: (before ++ q :: after))) = (do
      let clauses ← E.pushAll x (before ++ q :: after)
      some (.vec x.context (.str c.text :: clauses))) := by
    rw [pushDown.eq_def]
    simp [hop]
  have hexpand : ∀ b h a,
      (expandUserQuery E.env (.vec x.context (.str c.text :: (b ++ h :: a)))).toOption = (do
        let b ← (expandAll E.env b).toOption
        let h ← (expandUserQuery E.env h).toOption
        let a ← (expandAll E.env a).toOption
        (visit E.env (.vec x.context (.str c.text :: (b ++ h :: a)))).toOption) := by
    intro b h a
    rw [expand_vec, expandAll_cons, expandUserQuery_lit, expandAll_around]
    cases (expandAll E.env b).toOption with
    | none => rfl
    | some b' =>
      cases (expandUserQuery E.env h).toOption with
      | none => rfl
      | some h' =>
        cases (expandAll E.env a).toOption with
        | none => rfl
        | some a' => rfl
  have haround : E.around x c before after = fun h => (do
      let b ← (E.pushAll x before).bind fun l => (expandAll E.env l).toOption
      let a ← (E.pushAll x after).bind fun l => (expandAll E.env l).toOption
      (visit E.env (.vec x.context (.str c.text :: (b ++ h :: a)))).toOption) := rfl
  rw [prepared, hpush, pushAll_append, prepared, haround]
  simp only [pushAll, Option.bind_eq_bind]
  cases E.pushAll x before with
  | none =>
    cases E.pushDown x q with
    | none => rfl
    | some q' => cases (expandUserQuery E.env q').toOption <;> simp
  | some b =>
    cases E.pushDown x q with
    | none => rfl
    | some q' =>
      cases E.pushAll x after with
      | none => cases (expandUserQuery E.env q').toOption <;> simp
      | some a =>
        simp only [Option.bind_some, hexpand, Option.bind_eq_bind]
        cases (expandAll E.env b).toOption with
        | none => cases (expandUserQuery E.env q').toOption <;> rfl
        | some b' => cases (expandUserQuery E.env q').toOption <;> rfl

end Engine

/-! ## What a node carries over -/

/-- A node around another, and its plan from that of the other. -/
structure Carries (M : Meaning V Rows) (x y : Entity V) (F : Ast → Option Ast)
    (K : Option (Option (Plan V)) → Option (Option (Plan V))) : Prop where
  steady : ∀ h a, Steady h → F h = some a → Steady a
  planned : ∀ h, Steady h → (F h).bind (E.planned x) = K (E.planned y h)
  refused : K none = none
  alike : ∀ p p', Alike M p p' → Alike M (K p) (K p')

/-- Two prepared queries are refused alike or have plans that select the same rows. -/
structure Twins (M : Meaning V Rows) (x : Entity V) (o o' : Option Ast) : Prop where
  steady : ∀ a, o = some a → Steady a
  steady' : ∀ a, o' = some a → Steady a
  alike : Alike M (o.bind (E.planned x)) (o'.bind (E.planned x))

theorem Twins.bind {E : Engine V} {M : Meaning V Rows} {x y : Entity V} {F : Ast → Option Ast}
    {K : Option (Option (Plan V)) → Option (Option (Plan V))} {o o' : Option Ast}
    (h : Twins E M y o o') (hcarries : Carries E M x y F K) :
    Twins E M x (o.bind F) (o'.bind F) := by
  have hplan : ∀ o : Option Ast, (∀ a, o = some a → Steady a) →
      (o.bind F).bind (E.planned x) = K (o.bind (E.planned y)) := by
    intro o hsteady
    cases o with
    | none => exact hcarries.refused.symm
    | some a => exact hcarries.planned a (hsteady a rfl)
  have hsteady : ∀ o : Option Ast, (∀ a, o = some a → Steady a) →
      ∀ a, o.bind F = some a → Steady a := by
    intro o hsteady a ha
    obtain ⟨h, ho, hF⟩ := Option.bind_eq_some_iff.mp ha
    exact hcarries.steady h a (hsteady h ho) hF
  constructor
  · exact hsteady o h.steady
  · exact hsteady o' h.steady'
  · rw [hplan o h.steady, hplan o' h.steady']
    exact hcarries.alike _ _ h.alike

theorem Alike.refused (M : Meaning V Rows) : Alike M none none := Or.inl ⟨rfl, rfl⟩

/-- A node that lets nothing pass. -/
theorem carries_refused (M : Meaning V Rows) (x y : Entity V) (F : Ast → Option Ast)
    (hsteady : ∀ h a, Steady h → F h = some a → Steady a)
    (hplan : ∀ h a, Steady h → F h = some a → E.planned x a = none) :
    Carries E M x y F fun _ => none := by
  constructor
  · exact hsteady
  · intro h hh
    cases hF : F h with
    | none => rfl
    | some a => exact hplan h a hh hF
  · rfl
  · intro _ _ _
    exact Alike.refused M

namespace Engine

/-- The plan of a connective from that of one clause. -/
def connectivePlan (x : Entity V) (c : Connective) (before after : List Ast)
    (p : Option (Option (Plan V))) : Option (Option (Plan V)) := do
  let b ← E.planAll x (optimizeAll E.env before)
  let first ← p
  let clause ← first
  let a ← E.planAll x (optimizeAll E.env after)
  match c with
  | .and => some (some (.and (b ++ clause :: a)))
  | .or => some (some (.or (b ++ clause :: a)))
  | .not => some (some (.not clause))

theorem planned_connective (x : Entity V) (c : Connective) (before after : List Ast) (h : Ast)
    (hnot : c = .not → before = [] ∧ after = []) :
    E.planned x (.made (.str c.text :: (before ++ h :: after))) =
      E.connectivePlan x c before after (E.planned x h) := by
  have hall : ∀ l m : List Ast, optimizeAll E.env (l ++ m) =
      optimizeAll E.env l ++ optimizeAll E.env m := by
    intro l m
    induction l with
    | nil => rfl
    | cons q l ih => simp only [List.cons_append, optimizeAll, ih]
  obtain ⟨-, hextract, -, -⟩ := c.quiet
  rw [planned, optimize_of_head E.env _ _ _ hextract, hall, connectivePlan, planned]
  simp only [optimizeAll]
  have hclauses : ∀ b a : List Ast, E.planAll x (b ++ optimizeUserQuery E.env h :: a) = (do
      let b ← E.planAll x b
      let first ← E.plan x (optimizeUserQuery E.env h)
      let clause ← first
      let a ← E.planAll x a
      some (b ++ clause :: a)) := by
    intro b a
    rw [planAll_append]
    simp only [planAll]
    cases E.planAll x b with
    | none => rfl
    | some b =>
      cases E.plan x (optimizeUserQuery E.env h) with
      | none => rfl
      | some first =>
        cases first with
        | none => rfl
        | some clause => cases E.planAll x a <;> rfl
  have hand : ∀ clauses, E.plan x (.made (.str "and" :: clauses)) =
      (E.planAll x clauses).bind fun clauses => some (some (.and clauses)) := by
    intro clauses
    rw [plan.eq_def]
    rfl
  have hor : ∀ clauses, E.plan x (.made (.str "or" :: clauses)) =
      (E.planAll x clauses).bind fun clauses => some (some (.or clauses)) := by
    intro clauses
    rw [plan.eq_def]
    rfl
  cases c with
  | and =>
    rw [Connective.text, hand, hclauses]
    cases E.planAll x (optimizeAll E.env before) with
    | none => rfl
    | some b =>
      cases E.plan x (optimizeUserQuery E.env h) with
      | none => rfl
      | some first =>
        cases first with
        | none => rfl
        | some clause => cases E.planAll x (optimizeAll E.env after) <;> rfl
  | or =>
    rw [Connective.text, hor, hclauses]
    cases E.planAll x (optimizeAll E.env before) with
    | none => rfl
    | some b =>
      cases E.plan x (optimizeUserQuery E.env h) with
      | none => rfl
      | some first =>
        cases first with
        | none => rfl
        | some clause => cases E.planAll x (optimizeAll E.env after) <;> rfl
  | not =>
    obtain ⟨rfl, rfl⟩ := hnot rfl
    rw [Connective.text, plan.eq_def]
    simp only [optimizeAll, planAll, List.nil_append]
    rfl

theorem Alike.connectivePlan (M : Meaning V Rows) (x : Entity V) (c : Connective)
    (before after : List Ast) (p p' : Option (Option (Plan V))) (h : Alike M p p') :
    Alike M (E.connectivePlan x c before after p) (E.connectivePlan x c before after p') := by
  unfold Engine.connectivePlan
  cases E.planAll x (optimizeAll E.env before) with
  | none => exact Alike.refused M
  | some b =>
    obtain ⟨rfl, rfl⟩ | ⟨q, q', rfl, rfl, hrows⟩ := h
    · exact Alike.refused M
    · cases E.planAll x (optimizeAll E.env after) with
      | none => exact Alike.refused M
      | some a =>
        right
        cases c with
        | and => exact ⟨_, _, rfl, rfl, .and b a q q' hrows⟩
        | or => exact ⟨_, _, rfl, rfl, .or b a q q' hrows⟩
        | not => exact ⟨_, _, rfl, rfl, .not q q' hrows⟩

theorem operands_of_not (before after : List Ast) (h : wellFormed .not before after = true) :
    before = [] ∧ after = [] := by
  have hlength : (before ++ Ast.made [.str "not"] :: after).length = 1 := by
    by_contra hne
    have herror : (validateOperands "not" (before ++ .made [.str "not"] :: after)).toOption =
        none := by
      simp only [validateOperands, if_neg hne]
      rfl
    rw [wellFormed, Connective.text, herror] at h
    cases h
  simp only [List.length_append, List.length_cons] at hlength
  exact ⟨List.length_eq_zero_iff.mp (by omega), List.length_eq_zero_iff.mp (by omega)⟩

/-- A text before the clause, which the rows for any operator read. -/
theorem visit_leading (x : Entity V) (c : Connective) (w : String) (h a : Ast)
    (hw : w ∈ rewrittenNames) (hh : Steady h)
    (hvisit : (visit E.env (.vec x.context [.str c.text, .str w, h])).toOption = some a) :
    Steady a ∧ E.planned x a = none := by
  obtain ⟨hop, hextract, hin, -⟩ := c.quiet
  have hwords : c.text ∉ simpleBinaryOperators ∧ c.text ≠ "subquery" := by
    cases c <;> decide
  have hrows := rows_of_quiet E.env x.context c.text (.str w) h hwords.1 hwords.2
    (extractRow_of_ne _ _ _ _ hextract) (activeOrInactiveRow_right _ _ h hh)
    (factRow_of_quiet E.env _ _ h hwords.1 fun heq => absurd heq hin)
  have hnode := expandQueryNode_of_rows E.env x.context _ _ _ _ hrows
  simp only [rewrittenNames, List.mem_cons, List.not_mem_nil, or_false] at hw
  by_cases hchanged : w = "new_value" ∨ w = "old_value"
  · have hrow : changedValueRow E.env (.str c.text) (.str w) h =
        some (.ok (some (.made [.str c.text, .str w, .str (E.env.serialize h)]))) :=
      if_pos (by simpa [Ast.isOp, Ast.str?] using hchanged)
    rw [hrow] at hnode
    have ha : a = .made [.str c.text, .str w, .str (E.env.serialize h)] := by
      cases hresult : visit E.env (.vec x.context [.str c.text, .str w, h]) with
      | error e =>
        rw [hresult] at hvisit
        cases hvisit
      | ok r =>
        rw [hresult] at hvisit
        cases hvisit
        exact visit_of_some E.env _ _ _ hnode hresult
    have hvalue : w ≠ "value" := by
      rintro rfl
      exact absurd hchanged (by decide)
    rw [ha]
    constructor
    · exact steady_changed _ w _ c.standing hvalue
    · cases c with
      | and =>
        rw [planned, optimize_of_head E.env _ _ _ (by decide), plan.eq_def]
        rfl
      | or =>
        rw [planned, optimize_of_head E.env _ _ _ (by decide), plan.eq_def]
        rfl
      | not =>
        rw [visit, hnode] at hvisit
        cases hvisit
  · have htag : w = "tag" := by
      obtain h | h | h := hw
      · exact absurd (Or.inl h) hchanged
      · exact absurd (Or.inr h) hchanged
      · exact h
    subst htag
    have hrow : tagRow E.env (.str c.text) (.str "tag") h = some (.error "not a tag") := by
      simp [tagRow, Ast.isStr, hh.str]
      rfl
    have hnone : changedValueRow E.env (.str c.text) (.str "tag") h = none := rfl
    rw [hnone, hrow] at hnode
    rw [visit, hnode] at hvisit
    cases hvisit

/-- A connective carries the plan of each of its clauses, or has a text for a clause and no plan. -/
theorem carries_around (M : Meaning V Rows) (x : Entity V) (c : Connective)
    (before after : List Ast) : ∃ K, Carries E M x x (E.around x c before after) K := by
  cases hbefore : E.preparedAll x before with
  | none =>
    refine ⟨fun _ => none, carries_refused E M x x _ ?_ ?_⟩
    · intro h a _ hF
      simp [around, hbefore] at hF
    · intro h a _ hF
      simp [around, hbefore] at hF
  | some b =>
    cases hafter : E.preparedAll x after with
    | none =>
      refine ⟨fun _ => none, carries_refused E M x x _ ?_ ?_⟩
      · intro h a _ hF
        simp [around, hbefore, hafter] at hF
      · intro h a _ hF
        simp [around, hbefore, hafter] at hF
    | some a =>
      have haround : ∀ h, E.around x c before after h =
          (visit E.env (.vec x.context (.str c.text :: (b ++ h :: a)))).toOption := by
        intro h
        simp [around, hbefore, hafter]
      by_cases hlead : ∀ w, leading b a = some w → w ∉ rewrittenNames
      · refine ⟨fun p => if wellFormed c b a then
          E.connectivePlan x c (keptAll b) (keptAll a) p else none, ?_⟩
        have hvisit := fun h hh => visit_connective E.env x.context c b a h hh hlead
        constructor
        · intro h r hh hF
          rw [haround, hvisit h hh] at hF
          split at hF
          · cases hF
            exact steady_connective c.text _ _ h c.standing hh
          · cases hF
        · intro h hh
          rw [haround, hvisit h hh]
          by_cases hformed : wellFormed c b a = true
          · rw [if_pos hformed, if_pos hformed]
            apply E.planned_connective
            intro hnot
            subst hnot
            obtain ⟨rfl, rfl⟩ := operands_of_not b a hformed
            exact ⟨rfl, rfl⟩
          · rw [if_neg hformed, if_neg hformed]
            rfl
        · split
          · unfold connectivePlan
            cases E.planAll x (optimizeAll E.env (keptAll b)) <;> rfl
          · rfl
        · intro p p' halike
          split
          · exact Alike.connectivePlan E M x c _ _ p p' halike
          · exact Alike.refused M
      · simp only [not_forall, not_not] at hlead
        obtain ⟨w, hw, hmem⟩ := hlead
        have hvisit : ∀ h r, Steady h → E.around x c before after h = some r →
            Steady r ∧ E.planned x r = none := by
          intro h r hh hF
          rw [haround] at hF
          unfold leading at hw
          split at hw
          · next q =>
            have hq : q = .str w := by
              unfold Ast.str? at hw
              split at hw
              · cases hw
                rfl
              · cases hw
            rw [hq] at hF
            exact E.visit_leading x c w h r hmem hh hF
          · cases hw
        exact ⟨fun _ => none, carries_refused E M x x _ (fun h r hh hF => (hvisit h r hh hF).1)
          fun h r hh hF => (hvisit h r hh hF).2⟩

end Engine

/-! ## Filters of other subqueries -/

/-- A subquery in a vector with an operator. -/
def Pushed (x : Entity V) (sub : Ast) : Prop :=
  ∀ s, E.pushDown x sub = some s → ∃ ctx op args, s = .vec ctx (.str op :: args)

namespace Engine

theorem pushed_from (x : Entity V) (e : EntityName) (columns : Columns) (f : Ast)
    (hfilter : isFilter f = true) : Pushed E x (fromForm e columns f) := by
  intro s hs
  rw [E.pushDown_from x e columns f hfilter] at hs
  split at hs
  · obtain ⟨f', -, rfl⟩ := Option.map_eq_some_iff.mp hs
    exact ⟨_, _, _, rfl⟩
  · cases hs

theorem pushed_select (x : Entity V) (e : EntityName) (columns : Columns) (f : Ast)
    (hfilter : isFilter f = true) : Pushed E x (selectForm e columns f) := by
  intro s hs
  rw [E.pushDown_select x e columns f hfilter] at hs
  split at hs
  · obtain ⟨f', -, rfl⟩ := Option.map_eq_some_iff.mp hs
    exact ⟨_, _, _, rfl⟩
  · cases hs

/-- An `in` of a column that holds serialized values has no plan. -/
theorem prepared_rewritten (x : Entity V) (cols : Columns) (op : String) (a b q : Ast)
    (hcols : cols.Rewritten) (hpushed : Pushed E x (.made [.str op, a, b]))
    (hq : E.prepared x (inForm cols (.made [.str op, a, b])) = some q) :
    Steady q ∧ E.planned x q = none := by
  cases cols with
  | names cs => cases hcols
  | name c =>
    rw [prepared, E.pushDown_in x (.name c) op a b] at hq
    obtain ⟨s', hs', hq⟩ := Option.bind_eq_some_iff.mp hq
    split at hs'
    · obtain ⟨s, hs, rfl⟩ := Option.map_eq_some_iff.mp hs'
      obtain ⟨ctx, w, args, rfl⟩ := hpushed s hs
      by_cases hchanged : c = "new_value" ∨ c = "old_value"
      · have hexpand := expand_changed E.env x.context "in" c (.vec ctx (.str w :: args))
          (by simp) hchanged
        rw [Columns.toAst, hexpand] at hq
        obtain ⟨s', -, rfl⟩ := Option.map_eq_some_iff.mp hq
        have hvalue : c ≠ "value" := by
          rintro rfl
          exact absurd hchanged (by decide)
        constructor
        · exact steady_changed "in" c _ (by decide) hvalue
        · have hplan := E.plan_in x (.name c) (.str (E.env.serialize s')) rfl
          have hoptimize := optimize_inMade E.env (.name c) (.str (E.env.serialize s'))
          have hsub : E.planSubquery x (.str (E.env.serialize s')) = none := rfl
          rw [hsub] at hplan
          have hnone : E.planned x (inMade (.name c) (.str (E.env.serialize s'))) = none := by
            rw [planned, hoptimize]
            refine hplan.trans ?_
            cases (Columns.name c).list.mapM (column x) <;> rfl
          exact hnone
      · have htag : c = "tag" := by
          obtain h | h | h := hcols
          · exact absurd (Or.inl h) hchanged
          · exact absurd (Or.inr h) hchanged
          · exact h
        subst htag
        have hexpand := expand_tag E.env x.context "in" (.vec ctx (.str w :: args)) (by simp)
          fun b' hb' => by
            obtain rfl | ⟨w', args', rfl, -⟩ := expand_headed E.env ctx w args b' hb'
            · rfl
            · rfl
        rw [Columns.toAst, hexpand] at hq
        cases hq
    · cases hs'

/-- The plan of the `in` of a subquery from that of its filter. -/
def subqueryPlan (r e : EntityName) (cols : Columns) (fields : Option (List (String × Column)))
    (p : Option (Option (Plan V))) : Option (Option (Plan V)) :=
  E.inPlan r cols (do
    let fields ← fields
    let filter ← p
    some (subqueryOf (E.entity e) fields, filter))

theorem Alike.subqueryPlan (M : Meaning V Rows) (r e : EntityName) (cols : Columns)
    (fields : Option (List (String × Column))) (p p' : Option (Option (Plan V)))
    (h : Alike M p p') :
    Alike M (E.subqueryPlan r e cols fields p) (E.subqueryPlan r e cols fields p') := by
  unfold Engine.subqueryPlan inPlan
  cases cols.list.mapM (column (E.entity r)) with
  | none => exact Alike.refused M
  | some columns =>
    cases fields with
    | none => exact Alike.refused M
    | some fields =>
      obtain ⟨rfl, rfl⟩ | ⟨q, q', rfl, rfl, hrows⟩ := h
      · exact Alike.refused M
      · right
        exact ⟨_, _, rfl, rfl, .inSub columns (subqueryOf (E.entity e) fields, some q)
          (subqueryOf (E.entity e) fields, some q') (M.congruent _ q q' hrows)⟩

/-- The `in` of a subquery around its filter, where it passes the checks. -/
theorem carries_subquery (M : Meaning V Rows) (r e : EntityName) (cols : Columns) (checks : Bool)
    (G : Ast → Ast) (fields : Option (List (String × Column)))
    (hsteady : ∀ h, Steady h → Steady (G h))
    (hplan : ∀ h, Steady h → E.planned (E.entity r) (G h) =
      E.subqueryPlan r e cols fields (E.planned (E.entity e) h)) :
    Carries E M (E.entity r) (E.entity e) (fun h => if checks then some (G h) else none)
      (fun p => if checks then E.subqueryPlan r e cols fields p else none) := by
  cases checks with
  | false =>
    constructor
    · intro h a _ hF
      cases hF
    · intro h _
      rfl
    · rfl
    · intro p p' _
      exact Alike.refused M
  | true =>
    constructor
    · intro h a hh hF
      cases hF
      exact hsteady h hh
    · intro h hh
      exact hplan h hh
    · simp only [if_true, subqueryPlan, inPlan]
      cases cols.list.mapM (column (E.entity r)) with
      | none => rfl
      | some columns => cases fields <;> rfl
    · intro p p' h
      exact Alike.subqueryPlan E M r e cols fields p p' h

theorem plannedKept_of_steady (e : EntityName) (h : Ast) (hh : Steady h) :
    E.plannedKept e h = E.planned (E.entity e) h := by
  rw [plannedKept, hh.removable]
  rfl

end Engine

/-- An `in` of which both forms of the query are refused. -/
theorem twins_of_refused {M : Meaning V Rows} {x : Entity V} {o o' : Option Ast}
    (h : ∀ q, o = some q → Steady q ∧ E.planned x q = none)
    (h' : ∀ q, o' = some q → Steady q ∧ E.planned x q = none) : Twins E M x o o' := by
  have hnone : ∀ o : Option Ast, (∀ q, o = some q → Steady q ∧ E.planned x q = none) →
      o.bind (E.planned x) = none := by
    intro o ho
    cases o with
    | none => rfl
    | some q => exact (ho q rfl).2
  constructor
  · exact fun a ha => (h a ha).1
  · exact fun a ha => (h' a ha).1
  · rw [hnone o h, hnone o' h']
    exact Alike.refused M

theorem map_if (c : Bool) (o : Option Ast) (G : Ast → Ast) :
    (if c then o.map G else none) = o.bind fun h => if c then some (G h) else none := by
  cases c with
  | false => cases o <;> rfl
  | true => cases o <;> rfl

namespace Twins

variable {E : Engine V}

/-- A `from` around two filters that are twins. -/
theorem fromForm {M : Meaning V Rows} {r e : EntityName} {cols columns : Columns} {f f' : Ast}
    (hfilter : isFilter f = true) (hfilter' : isFilter f' = true)
    (hchecks : E.fromChecks e columns f = E.fromChecks e columns f')
    (hcolumns : ¬ columns.Rewritten)
    (h : Twins E M (E.entity e) (E.prepared (E.entity e) f) (E.prepared (E.entity e) f')) :
    Twins E M (E.entity r)
      (E.prepared (E.entity r) (inForm cols (Subqueries.fromForm e columns f)))
      (E.prepared (E.entity r) (inForm cols (Subqueries.fromForm e columns f'))) := by
  by_cases hcols : cols.Rewritten
  · apply twins_of_refused E
    · intro q hq
      exact E.prepared_rewritten _ cols _ _ _ q hcols (E.pushed_from _ e columns f hfilter) hq
    · intro q hq
      exact E.prepared_rewritten _ cols _ _ _ q hcols (E.pushed_from _ e columns f' hfilter') hq
  · rw [E.prepared_inFrom r e cols columns f hfilter hcols hcolumns,
      E.prepared_inFrom r e cols columns f' hfilter' hcols hcolumns, ← hchecks, map_if, map_if]
    apply h.bind
    apply E.carries_subquery M r e (cols.expand E.env) _ _
      ((columns.expand E.env).list.mapM (Engine.fromFields (E.entity e)))
    · intro h hh
      exact steady_inMade _ _ _ _ _
    · intro h hh
      rw [E.planned_inFrom r e _ _ h hh.noFacts, Engine.fromQuery,
        E.plannedKept_of_steady e h hh]
      rfl

/-- A `select_<entity>` around two filters that are twins. -/
theorem selectForm {M : Meaning V Rows} {r e : EntityName} {cols columns : Columns} {f f' : Ast}
    (hfilter : isFilter f = true) (hfilter' : isFilter f' = true)
    (hcolumns : ¬ columns.Rewritten)
    (h : Twins E M (E.entity e) (E.prepared (E.entity e) f) (E.prepared (E.entity e) f')) :
    Twins E M (E.entity r)
      (E.prepared (E.entity r) (inForm cols (Subqueries.selectForm e columns f)))
      (E.prepared (E.entity r) (inForm cols (Subqueries.selectForm e columns f'))) := by
  by_cases hcols : cols.Rewritten
  · apply twins_of_refused E
    · intro q hq
      exact E.prepared_rewritten _ cols _ _ _ q hcols (E.pushed_select _ e columns f hfilter) hq
    · intro q hq
      exact E.prepared_rewritten _ cols _ _ _ q hcols (E.pushed_select _ e columns f' hfilter') hq
  · rw [E.prepared_inSelect r e cols columns f hfilter hcols hcolumns,
      E.prepared_inSelect r e cols columns f' hfilter' hcols hcolumns, map_if, map_if]
    apply h.bind
    apply E.carries_subquery M r e (cols.expand E.env) _ _
      ((columns.expand E.env).list.mapM (namesToFields E.parser (E.entity e).query.projections))
    · intro h hh
      exact steady_inMade _ _ _ _ _
    · intro h hh
      rw [E.planned_inSelect r e _ _ h, Engine.selectQuery,
        redirected_of_steady E.env e _ h hh, Engine.keptQuery, E.plannedKept_of_steady e h hh]
      rfl

/-- A connective around two clauses that are twins. -/
theorem connective {M : Meaning V Rows} {x : Entity V} {f f' : Ast} (c : Connective)
    (before after : List Ast) (h : Twins E M x (E.prepared x f) (E.prepared x f')) :
    Twins E M x (E.prepared x (.made (.str c.text :: (before ++ f :: after))))
      (E.prepared x (.made (.str c.text :: (before ++ f' :: after)))) := by
  obtain ⟨K, hcarries⟩ := E.carries_around M x c before after
  rw [E.prepared_connective, E.prepared_connective]
  exact h.bind hcarries

end Twins

/-! ## Outer queries -/

/-- A filter with a hole: below connectives, and in the filters of other subqueries of either
form. An extract of a column that holds serialized values, or of the tag, has no filter. -/
inductive Outer where
  | hole
  | clause (c : Connective) (before after : List Ast) (inner : Outer)
  | fromFilter (cols : Columns) (e : EntityName)
      (columns : { columns : Columns // ¬ columns.Rewritten }) (inner : Outer)
  | selectFilter (cols : Columns) (e : EntityName)
      (columns : { columns : Columns // ¬ columns.Rewritten }) (inner : Outer)

namespace Outer

def plug (q : Ast) : Outer → Ast
  | hole => q
  | clause c before after inner => .made (.str c.text :: (before ++ inner.plug q :: after))
  | fromFilter cols e columns inner => inForm cols (Subqueries.fromForm e columns.1 (inner.plug q))
  | selectFilter cols e columns inner => inForm cols (Subqueries.selectForm e columns.1 (inner.plug q))

theorem checkExtractClauses_append (l m : List Ast) :
    checkExtractClauses (l ++ m) = (checkExtractClauses l && checkExtractClauses m) := by
  induction l with
  | nil => rfl
  | cons a l ih =>
    simp only [List.cons_append, checkExtractClauses, ih, Bool.and_assoc]

end Outer

/-- What the checks of a filter read of an `in`. -/
theorem checkExtractClause_inForm (cols : Columns) (s : Ast) :
    checkExtractClause (inForm cols s) = true := by
  have hop : (Ast.str "in").isOp ["or", "and"] = false := by decide
  have hvalid : validOperator (.str "in") = true := by decide +kernel
  rw [inForm, checkExtractClause, hop, hvalid]
  rfl

theorem isFilter_made (op : String) (args : List Ast) (hop : op ∈ standingOperators) :
    isFilter (.made (.str op :: args)) = true := by
  rw [isFilter]
  simp only [standingOperators, List.mem_cons, List.not_mem_nil, or_false] at hop
  obtain rfl | rfl | rfl | rfl := hop <;> decide +kernel

theorem isFilter_inForm (cols : Columns) (s : Ast) : isFilter (inForm cols s) = true :=
  isFilter_made "in" _ (by decide)

namespace Outer

variable {cols : Columns} {s s' : Ast}

theorem isFilter_plug (outer : Outer) : isFilter (outer.plug (inForm cols s)) = true := by
  cases outer with
  | hole => exact isFilter_inForm cols s
  | clause c before after inner => exact isFilter_made c.text _ c.standing
  | fromFilter => exact isFilter_inForm _ _
  | selectFilter => exact isFilter_inForm _ _

theorem checkExtractClause_plug (outer : Outer) :
    checkExtractClause (outer.plug (inForm cols s)) =
      checkExtractClause (outer.plug (inForm cols s')) := by
  induction outer with
  | hole => rw [plug, plug, checkExtractClause_inForm, checkExtractClause_inForm]
  | clause c before after inner ih =>
    cases c with
    | and =>
      simp only [plug, Connective.text, checkExtractClause, checkExtractClauses_append,
        checkExtractClauses, ih]
    | or =>
      simp only [plug, Connective.text, checkExtractClause, checkExtractClauses_append,
        checkExtractClauses, ih]
    | not => rfl
  | fromFilter => rw [plug, plug, checkExtractClause_inForm, checkExtractClause_inForm]
  | selectFilter => rw [plug, plug, checkExtractClause_inForm, checkExtractClause_inForm]

theorem pairHead_plug (outer : Outer) :
    pairHead (outer.plug (inForm cols s)) = pairHead (outer.plug (inForm cols s')) := by
  cases outer with
  | hole => rfl
  | clause c before after inner =>
    obtain _ | ⟨a, _ | ⟨b, before⟩⟩ := before
    · cases after <;> rfl
    · rfl
    · rfl
  | fromFilter => rfl
  | selectFilter => rfl

theorem fromChecks_plug (outer : Outer) (e : EntityName) (columns : Columns) :
    E.fromChecks e columns (outer.plug (inForm cols s)) =
      E.fromChecks e columns (outer.plug (inForm cols s')) := by
  rw [Engine.fromChecks, Engine.fromChecks, outer.checkExtractClause_plug, outer.pairHead_plug]

/-- Two forms of an `in` that agree on their own agree in every query around them. -/
theorem twins_plug (M : Meaning V Rows) (outer : Outer)
    (h : ∀ r, Twins E M (E.entity r) (E.prepared (E.entity r) (inForm cols s))
      (E.prepared (E.entity r) (inForm cols s'))) (r : EntityName) :
    Twins E M (E.entity r) (E.prepared (E.entity r) (outer.plug (inForm cols s)))
      (E.prepared (E.entity r) (outer.plug (inForm cols s'))) := by
  induction outer generalizing r with
  | hole => exact h r
  | clause c before after inner ih => exact (ih r).connective c before after
  | fromFilter cols' e columns inner ih =>
    exact (ih e).fromForm inner.isFilter_plug inner.isFilter_plug
      (fromChecks_plug E inner e columns.1) columns.2
  | selectFilter cols' e columns inner ih =>
    exact (ih e).selectForm inner.isFilter_plug inner.isFilter_plug columns.2

end Outer

end OpenVoxDB.Subqueries
