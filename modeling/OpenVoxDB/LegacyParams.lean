import Mathlib
import OpenVoxDB.LegacyQueries

/-!
# The parameters of a legacy query

The compiler puts the parameters together as it puts the text together, so
they come in the order of the placeholders. Only the parameter of a tag has no
placeholder.
-/

namespace OpenVoxDB.LegacyQueries

open Placeholders

variable {E : Type}

/-- The parameter of a tag. -/
def Bound.isLower : Bound E → Bool
  | .lower _ => true
  | _ => false

/-- The parameters that have a placeholder. -/
def placed (params : List (Bound E)) : List (Bound E) := params.filter fun p => !p.isLower

@[simp] theorem placed_append (xs ys : List (Bound E)) :
    placed (xs ++ ys) = placed xs ++ placed ys := List.filter_append _ _

namespace Compiled

/-- The text of a condition or a select. -/
def sql : Compiled E → List (Piece (Bound E))
  | filter condition _ _ => (condition.map Condition.pieces).getD []
  | select sql _ => sql

/-- All parameters that are put next to the text. -/
def bound : Compiled E → List (Bound E)
  | filter _ params _ => params
  | select _ params => params

/-- The placeholders of the text stand for the parameters that are placed. -/
def InOrder (c : Compiled E) : Prop := marks c.sql = placed c.bound

theorem marks_parens (pieces : List (Piece (Bound E))) :
    marks (Condition.parens pieces) = marks pieces := by
  simp [Condition.parens]

theorem marks_operandPieces (conditions : List (Condition E)) :
    (Condition.operandPieces conditions).flatMap marks =
      conditions.flatMap fun condition => marks condition.pieces := by
  induction conditions with
  | nil => rfl
  | cons condition conditions ih => simp [Condition.operandPieces, marks_parens, ih]

/-- A select that stands for a condition loses its text and its parameters. -/
theorem marks_operand (c : Compiled E) (h : c.InOrder) : marks c.operand.pieces = placed c.params := by
  cases c with
  | filter condition params clause =>
    cases condition with
    | none => simpa [operand, condition, Condition.pieces, Compiled.params, InOrder, sql, bound]
        using h
    | some condition =>
      simpa [operand, Compiled.condition, Compiled.params, InOrder, sql, bound] using h
  | select sql params => rfl

theorem marks_operands (terms : List (Compiled E)) (hterms : ∀ c ∈ terms, c.InOrder) :
    (terms.flatMap fun c => marks c.operand.pieces) = placed (terms.flatMap params) := by
  induction terms with
  | nil => rfl
  | cons term terms ih =>
    obtain ⟨hterm, hterms⟩ := List.forall_mem_cons.mp hterms
    simp [marks_operand term hterm, ih hterms]

theorem inOrder_comparison (column operator : String) (value : Bound E)
    (h : value.isLower = false) : (comparison column operator value).InOrder := by
  simp [InOrder, comparison, sql, bound, Condition.pieces, placed, h]

theorem inOrder_regexp (column : String) (pattern : Json) :
    (regexp column pattern : Compiled E).InOrder := by
  simp [InOrder, regexp, sql, bound, Condition.regexpMatch, Condition.pieces, marks_parens, placed,
    Bound.isLower]

theorem inOrder_boolean (operator : List (Condition E) → Condition E)
    (hoperator : ∀ conditions, marks (operator conditions).pieces =
      conditions.flatMap fun condition => marks condition.pieces)
    (terms : List (Compiled E)) (hterms : ∀ c ∈ terms, c.InOrder) (c : Compiled E)
    (hc : boolean operator terms = some c) : c.InOrder := by
  unfold boolean at hc
  split at hc
  · cases hc
  · obtain rfl := Option.some.inj hc
    simpa [InOrder, sql, bound, hoperator, List.flatMap_map] using marks_operands terms hterms

theorem inOrder_negate (c d : Compiled E) (hc : c.InOrder) (hd : c.negate = some d) :
    d.InOrder := by
  cases c with
  | filter condition params clause =>
    obtain rfl := Option.some.inj hd
    have hoperand := marks_operand _ hc
    simpa [InOrder, sql, bound, Condition.pieces, marks_parens, operand, Compiled.condition,
      Compiled.params] using hoperand
  | select sql params => cases hd

theorem inOrder_extract (field : String) (c d : Compiled E) (hc : c.InOrder)
    (hd : c.extract field = some d) : d.InOrder := by
  cases c with
  | filter condition params clause => cases hd
  | select sql params =>
    obtain rfl := Option.some.inj hd
    simpa [InOrder, Compiled.sql, bound, Condition.pieces] using hc

theorem inOrder_isIn (column : String) (c : Compiled E) (hc : c.InOrder) :
    (c.isIn column).InOrder := by
  have hoperand := marks_operand c hc
  simpa [InOrder, sql, bound, isIn, Condition.pieces] using hoperand

theorem inOrder_resourceQuery (c : Compiled E) (hc : c.InOrder) : c.resourceQuery.InOrder := by
  have hoperand := marks_operand c hc
  simpa [InOrder, sql, bound, resourceQuery] using hoperand

theorem inOrder_factQuery (c : Compiled E) (hc : c.InOrder) : c.factQuery.InOrder := by
  have hoperand := marks_operand c hc
  simpa [InOrder, sql, bound, factQuery] using hoperand

end Compiled

/-! ## Comparisons -/

open Compiled

theorem inOrder_eventEquality (field : String) (value : Json) (c : Compiled E)
    (hc : compileResourceEventEquality field value = some c) : c.InOrder := by
  unfold compileResourceEventEquality at hc
  simp only at hc
  split_ifs at hc <;> obtain rfl := Option.some.inj hc
  all_goals first
    | exact inOrder_comparison _ _ _ rfl
    | rfl

theorem inOrder_eventRegexp (field : String) (pattern : Json) (c : Compiled E)
    (hc : compileResourceEventRegexp field pattern = some c) : c.InOrder := by
  unfold compileResourceEventRegexp at hc
  simp only at hc
  split_ifs at hc <;> obtain rfl := Option.some.inj hc
  all_goals first
    | exact inOrder_regexp _ _
    | rfl

theorem inOrder_equality (kind : Kind) (path : Path) (value : Json) (c : Compiled E)
    (hc : compileEquality kind path value = some c) : c.InOrder := by
  cases kind with
  | event =>
    cases path with
    | field field => exact inOrder_eventEquality field value c hc
    | nodeActive => cases hc
    | parameter name => cases hc
  | resource =>
    cases path with
    | field field =>
      simp only [compileEquality, compileResourceEquality] at hc
      split_ifs at hc <;> obtain rfl := Option.some.inj hc <;> rfl
    | nodeActive => obtain rfl := Option.some.inj hc; rfl
    | parameter name => obtain rfl := Option.some.inj hc; rfl
  | fact =>
    cases path with
    | field field =>
      simp only [compileEquality, compileFactEquality] at hc
      split_ifs at hc <;> obtain rfl := Option.some.inj hc <;> rfl
    | nodeActive => obtain rfl := Option.some.inj hc; rfl
    | parameter name => cases hc

theorem inOrder_regexps (kind : Kind) (path : Path) (pattern : Json) (c : Compiled E)
    (hc : compileRegexp kind path pattern = some c) : c.InOrder := by
  cases path with
  | field field =>
    cases kind with
    | event => exact inOrder_eventRegexp field pattern c hc
    | resource =>
      simp only [compileRegexp, compileResourceRegexp] at hc
      split_ifs at hc <;> obtain rfl := Option.some.inj hc <;> rfl
    | fact =>
      simp only [compileRegexp, compileFactRegexp] at hc
      split_ifs at hc <;> obtain rfl := Option.some.inj hc <;> rfl
  | nodeActive => cases kind <;> cases hc
  | parameter name => cases kind <;> cases hc

/-! ## Terms -/

variable (readers : Readers)

theorem inOrder_inequality (kind : Kind) (op : Inequality) (path : Path) (value : Json)
    (c : Compiled E) (hc : compileInequality readers kind op path value = some c) : c.InOrder := by
  cases path with
  | field field =>
    cases kind with
    | event =>
      obtain ⟨column, -, hc⟩ := Option.bind_eq_some_iff.mp hc
      obtain ⟨timestamp, -, hc⟩ := Option.bind_eq_some_iff.mp hc
      obtain rfl := Option.some.inj hc
      exact inOrder_comparison _ _ _ rfl
    | resource => cases hc
    | fact =>
      obtain ⟨number, -, hc⟩ := Option.bind_eq_some_iff.mp hc
      split at hc
      · obtain rfl := Option.some.inj hc
        rfl
      · cases hc
  | nodeActive => cases kind <;> cases hc
  | parameter name => cases kind <;> cases hc

mutual

/-- The placeholders of a term stand for its parameters, tags apart. -/
theorem inOrder_compileTerm (kind : Kind) (term : Term) (c : Compiled E)
    (hc : compileTerm readers kind term = some c) : c.InOrder := by
  cases term with
  | empty =>
    obtain rfl := Option.some.inj hc
    rfl
  | equal path value => exact inOrder_equality kind path value c hc
  | regexp path pattern => exact inOrder_regexps kind path pattern c hc
  | inequality op path value => exact inOrder_inequality readers kind op path value c hc
  | and terms =>
    obtain ⟨cs, hcs, hc⟩ := Option.bind_eq_some_iff.mp hc
    apply inOrder_boolean .all _ cs (inOrder_compileTerms kind terms cs hcs) c hc
    intro conditions
    rw [Condition.pieces, marks_join, marks_operandPieces]
  | or terms =>
    obtain ⟨cs, hcs, hc⟩ := Option.bind_eq_some_iff.mp hc
    apply inOrder_boolean .any _ cs (inOrder_compileTerms kind terms cs hcs) c hc
    intro conditions
    rw [Condition.pieces, marks_join, marks_operandPieces]
  | not terms =>
    obtain ⟨cs, hcs, hc⟩ := Option.bind_eq_some_iff.mp hc
    have hall := inOrder_compileTerms kind terms cs hcs
    split at hc
    · next d => exact inOrder_negate d c (hall d List.mem_cons_self) hc
    · cases hc
  | extract field subquery =>
    obtain ⟨d, hd, hc⟩ := Option.bind_eq_some_iff.mp hc
    obtain ⟨type, -, hc⟩ := Option.bind_eq_some_iff.mp hc
    split at hc
    · exact inOrder_extract field d c (inOrder_compileTerm kind subquery d hd) hc
    · cases hc
  | isIn field subquery =>
    rw [compileTerm] at hc
    split at hc
    · obtain ⟨d, hd, rfl⟩ := Option.map_eq_some_iff.mp hc
      exact inOrder_isIn _ d (inOrder_compileTerm kind subquery d hd)
    · cases hc
  | selectResources query =>
    obtain ⟨d, hd, rfl⟩ := Option.map_eq_some_iff.mp hc
    exact inOrder_resourceQuery d (inOrder_compileTerm .resource query d hd)
  | selectFacts query =>
    obtain ⟨d, hd, rfl⟩ := Option.map_eq_some_iff.mp hc
    exact inOrder_factQuery d (inOrder_compileTerm .fact query d hd)

theorem inOrder_compileTerms (kind : Kind) (terms : List Term) (cs : List (Compiled E))
    (hcs : compileTerms readers kind terms = some cs) : ∀ c ∈ cs, c.InOrder := by
  cases terms with
  | nil =>
    obtain rfl := Option.some.inj hcs
    simp
  | cons term terms =>
    obtain ⟨c, hc, hcs⟩ := Option.bind_eq_some_iff.mp hcs
    obtain ⟨rest, hrest, rfl⟩ := Option.map_eq_some_iff.mp hcs
    exact List.forall_mem_cons.mpr
      ⟨inOrder_compileTerm kind term c hc, inOrder_compileTerms kind terms rest hrest⟩

end

/-! ## The clause for the latest reports -/

/-- The clause for the latest reports has no placeholder. -/
def Compiled.PlainClause (c : Compiled E) : Prop :=
  ∀ clause ∈ c.latestReportClause, ∃ isIn, clause = .latestReport isIn

theorem plainClause_equality (kind : Kind) (path : Path) (value : Json) (c : Compiled E)
    (hc : compileEquality kind path value = some c) : c.PlainClause := by
  intro clause hclause
  cases kind with
  | event =>
    cases path with
    | field field =>
      simp only [compileEquality, compileResourceEventEquality] at hc
      split_ifs at hc <;> obtain rfl := Option.some.inj hc
      all_goals first
        | cases hclause; done
        | exact ⟨value.truthy, (Option.some.inj hclause).symm⟩
    | nodeActive => cases hc
    | parameter name => cases hc
  | resource =>
    cases path with
    | field field =>
      simp only [compileEquality, compileResourceEquality] at hc
      split_ifs at hc <;> obtain rfl := Option.some.inj hc <;> cases hclause
    | nodeActive => obtain rfl := Option.some.inj hc; cases hclause
    | parameter name => obtain rfl := Option.some.inj hc; cases hclause
  | fact =>
    cases path with
    | field field =>
      simp only [compileEquality, compileFactEquality] at hc
      split_ifs at hc <;> obtain rfl := Option.some.inj hc <;> cases hclause
    | nodeActive => obtain rfl := Option.some.inj hc; cases hclause
    | parameter name => cases hc

theorem noClause_regexp (kind : Kind) (path : Path) (pattern : Json) (c : Compiled E)
    (hc : compileRegexp kind path pattern = some c) : c.latestReportClause = none := by
  cases path with
  | field field =>
    cases kind <;>
      simp only [compileRegexp, compileResourceEventRegexp, compileResourceRegexp,
        compileFactRegexp] at hc <;>
      split_ifs at hc <;> obtain rfl := Option.some.inj hc <;> rfl
  | nodeActive => cases kind <;> cases hc
  | parameter name => cases kind <;> cases hc

theorem noClause_inequality (kind : Kind) (op : Inequality) (path : Path) (value : Json)
    (c : Compiled E) (hc : compileInequality readers kind op path value = some c) :
    c.latestReportClause = none := by
  cases path with
  | field field =>
    cases kind with
    | event =>
      obtain ⟨column, -, hc⟩ := Option.bind_eq_some_iff.mp hc
      obtain ⟨timestamp, -, hc⟩ := Option.bind_eq_some_iff.mp hc
      obtain rfl := Option.some.inj hc
      rfl
    | resource => cases hc
    | fact =>
      obtain ⟨number, -, hc⟩ := Option.bind_eq_some_iff.mp hc
      split at hc
      · obtain rfl := Option.some.inj hc
        rfl
      · cases hc
  | nodeActive => cases kind <;> cases hc
  | parameter name => cases kind <;> cases hc

theorem noClause_boolean (operator : List (Condition E) → Condition E) (terms : List (Compiled E))
    (c : Compiled E) (hc : Compiled.boolean operator terms = some c) :
    c.latestReportClause = none := by
  unfold Compiled.boolean at hc
  split at hc
  · cases hc
  · obtain rfl := Option.some.inj hc
    rfl

theorem Compiled.plainClause_of_none (c : Compiled E) (h : c.latestReportClause = none) :
    c.PlainClause := by
  intro clause hclause
  rw [h] at hclause
  cases hclause

mutual

theorem plainClause_compileTerm (kind : Kind) (term : Term) (c : Compiled E)
    (hc : compileTerm readers kind term = some c) : c.PlainClause := by
  cases term with
  | empty =>
    obtain rfl := Option.some.inj hc
    exact Compiled.plainClause_of_none _ rfl
  | equal path value => exact plainClause_equality kind path value c hc
  | regexp path pattern =>
    exact Compiled.plainClause_of_none c (noClause_regexp kind path pattern c hc)
  | inequality op path value =>
    exact Compiled.plainClause_of_none c (noClause_inequality readers kind op path value c hc)
  | and terms =>
    obtain ⟨cs, -, hc⟩ := Option.bind_eq_some_iff.mp hc
    exact Compiled.plainClause_of_none c (noClause_boolean .all cs c hc)
  | or terms =>
    obtain ⟨cs, -, hc⟩ := Option.bind_eq_some_iff.mp hc
    exact Compiled.plainClause_of_none c (noClause_boolean .any cs c hc)
  | not terms =>
    obtain ⟨cs, hcs, hc⟩ := Option.bind_eq_some_iff.mp hc
    have hall := plainClause_compileTerms kind terms cs hcs
    split at hc
    · next d =>
      have hd := hall d List.mem_cons_self
      cases d with
      | filter condition params clause =>
        obtain rfl := Option.some.inj hc
        exact hd
      | select sql params => cases hc
    · cases hc
  | extract field subquery =>
    obtain ⟨d, -, hc⟩ := Option.bind_eq_some_iff.mp hc
    obtain ⟨type, -, hc⟩ := Option.bind_eq_some_iff.mp hc
    split at hc
    · cases d with
      | filter condition params clause => cases hc
      | select sql params =>
        obtain rfl := Option.some.inj hc
        exact Compiled.plainClause_of_none _ rfl
    · cases hc
  | isIn field subquery =>
    rw [compileTerm] at hc
    split at hc
    · obtain ⟨d, hd, rfl⟩ := Option.map_eq_some_iff.mp hc
      exact plainClause_compileTerm kind subquery d hd
    · cases hc
  | selectResources query =>
    obtain ⟨d, -, rfl⟩ := Option.map_eq_some_iff.mp hc
    exact Compiled.plainClause_of_none _ rfl
  | selectFacts query =>
    obtain ⟨d, -, rfl⟩ := Option.map_eq_some_iff.mp hc
    exact Compiled.plainClause_of_none _ rfl

theorem plainClause_compileTerms (kind : Kind) (terms : List Term) (cs : List (Compiled E))
    (hcs : compileTerms readers kind terms = some cs) : ∀ c ∈ cs, c.PlainClause := by
  cases terms with
  | nil =>
    obtain rfl := Option.some.inj hcs
    simp
  | cons term terms =>
    obtain ⟨c, hc, hcs⟩ := Option.bind_eq_some_iff.mp hcs
    obtain ⟨rest, hrest, rfl⟩ := Option.map_eq_some_iff.mp hcs
    exact List.forall_mem_cons.mpr
      ⟨plainClause_compileTerm kind term c hc, plainClause_compileTerms kind terms rest hrest⟩

end

/-- The condition of a map, and its parameters. -/
theorem marks_condition (c : Compiled E) (h : c.InOrder) :
    marks ((c.condition.map Condition.pieces).getD []) = placed c.params := by
  cases c with
  | filter condition params clause => exact h
  | select sql params => rfl

theorem marks_latestReportClause (c : Compiled E) (h : c.PlainClause) :
    marks ((c.latestReportClause.map fun clause => .text " AND " :: clause.pieces).getD []) = [] := by
  cases hclause : c.latestReportClause with
  | none => rfl
  | some clause =>
    obtain ⟨isIn, rfl⟩ := h clause hclause
    rfl


/-! ## Tags -/

mutual

/-- A condition has the parameter of a tag. -/
def Term.tagged (kind : Kind) : Term → Bool
  | .equal path _ => kind = .resource && path = .field "tag"
  | .and terms => Term.anyTagged kind terms
  | .or terms => Term.anyTagged kind terms
  | .not terms => Term.anyTagged kind terms
  | .extract _ subquery => subquery.selectTagged
  | .isIn _ subquery => subquery.tagged kind
  | _ => false

def Term.selectTagged : Term → Bool
  | .selectResources query => query.tagged .resource
  | .selectFacts query => query.tagged .fact
  | _ => false

def Term.anyTagged (kind : Kind) : List Term → Bool
  | [] => false
  | term :: terms => term.tagged kind || Term.anyTagged kind terms

end

def hasLower (params : List (Bound E)) : Bool := params.any Bound.isLower

@[simp] theorem hasLower_append (xs ys : List (Bound E)) :
    hasLower (xs ++ ys) = (hasLower xs || hasLower ys) := List.any_append

theorem lower_equality (kind : Kind) (path : Path) (value : Json) (c : Compiled E)
    (hc : compileEquality kind path value = some c) :
    hasLower c.params = (decide (kind = .resource) && decide (path = .field "tag")) := by
  cases kind with
  | event =>
    cases path with
    | field field =>
      simp only [compileEquality, compileResourceEventEquality] at hc
      split_ifs at hc <;> obtain rfl := Option.some.inj hc <;> rfl
    | nodeActive => cases hc
    | parameter name => cases hc
  | resource =>
    cases path with
    | field field =>
      simp only [compileEquality, compileResourceEquality] at hc
      by_cases htag : field = "tag"
      · rw [if_pos htag] at hc
        obtain rfl := Option.some.inj hc
        simp [htag, hasLower, Compiled.params, Bound.isLower]
      · rw [if_neg htag] at hc
        split_ifs at hc <;> obtain rfl := Option.some.inj hc <;>
          simp [htag, hasLower, Compiled.comparison, Compiled.params, Bound.isLower]
    | nodeActive => obtain rfl := Option.some.inj hc; rfl
    | parameter name => obtain rfl := Option.some.inj hc; rfl
  | fact =>
    cases path with
    | field field =>
      simp only [compileEquality, compileFactEquality] at hc
      split_ifs at hc <;> obtain rfl := Option.some.inj hc <;> rfl
    | nodeActive => obtain rfl := Option.some.inj hc; rfl
    | parameter name => cases hc

theorem lower_regexp (kind : Kind) (path : Path) (pattern : Json) (c : Compiled E)
    (hc : compileRegexp kind path pattern = some c) : hasLower c.params = false := by
  cases path with
  | field field =>
    cases kind <;>
      simp only [compileRegexp, compileResourceEventRegexp, compileResourceRegexp,
        compileFactRegexp] at hc <;>
      split_ifs at hc <;> obtain rfl := Option.some.inj hc <;> rfl
  | nodeActive => cases kind <;> cases hc
  | parameter name => cases kind <;> cases hc

theorem lower_inequality (kind : Kind) (op : Inequality) (path : Path) (value : Json)
    (c : Compiled E) (hc : compileInequality readers kind op path value = some c) :
    hasLower c.params = false := by
  cases path with
  | field field =>
    cases kind with
    | event =>
      obtain ⟨column, -, hc⟩ := Option.bind_eq_some_iff.mp hc
      obtain ⟨timestamp, -, hc⟩ := Option.bind_eq_some_iff.mp hc
      obtain rfl := Option.some.inj hc
      rfl
    | resource => cases hc
    | fact =>
      obtain ⟨number, -, hc⟩ := Option.bind_eq_some_iff.mp hc
      split at hc
      · obtain rfl := Option.some.inj hc
        rfl
      · cases hc
  | nodeActive => cases kind <;> cases hc
  | parameter name => cases kind <;> cases hc

theorem lower_boolean (operator : List (Condition E) → Condition E) (terms : List (Compiled E))
    (c : Compiled E) (hc : Compiled.boolean operator terms = some c) :
    hasLower c.params = terms.any fun c => hasLower c.params := by
  unfold Compiled.boolean at hc
  split at hc
  · cases hc
  · obtain rfl := Option.some.inj hc
    simp [Compiled.params, hasLower, List.any_flatMap]

mutual

theorem lower_compileTerm (kind : Kind) (term : Term) (c : Compiled E)
    (hc : compileTerm readers kind term = some c) : hasLower c.params = term.tagged kind := by
  cases term with
  | empty =>
    obtain rfl := Option.some.inj hc
    rfl
  | equal path value => exact lower_equality kind path value c hc
  | regexp path pattern => exact lower_regexp kind path pattern c hc
  | inequality op path value => exact lower_inequality readers kind op path value c hc
  | and terms =>
    obtain ⟨cs, hcs, hc⟩ := Option.bind_eq_some_iff.mp hc
    rw [lower_boolean .all cs c hc, Term.tagged, lower_compileTerms kind terms cs hcs]
  | or terms =>
    obtain ⟨cs, hcs, hc⟩ := Option.bind_eq_some_iff.mp hc
    rw [lower_boolean .any cs c hc, Term.tagged, lower_compileTerms kind terms cs hcs]
  | not terms =>
    obtain ⟨cs, hcs, hc⟩ := Option.bind_eq_some_iff.mp hc
    have hany := lower_compileTerms kind terms cs hcs
    rw [Term.tagged, ← hany]
    split at hc
    · next d =>
      cases d with
      | filter condition params clause =>
        obtain rfl := Option.some.inj hc
        simp [Compiled.params]
      | select sql params => cases hc
    · cases hc
  | extract field subquery =>
    obtain ⟨d, hd, hc⟩ := Option.bind_eq_some_iff.mp hc
    obtain ⟨type, htype, hc⟩ := Option.bind_eq_some_iff.mp hc
    split at hc
    · cases d with
      | filter condition params clause => cases hc
      | select sql params =>
        obtain rfl := Option.some.inj hc
        exact lower_select kind subquery type htype sql params hd
    · cases hc
  | isIn field subquery =>
    rw [compileTerm] at hc
    split at hc
    · obtain ⟨d, hd, rfl⟩ := Option.map_eq_some_iff.mp hc
      exact lower_compileTerm kind subquery d hd
    · cases hc
  | selectResources query =>
    obtain ⟨d, hd, rfl⟩ := Option.map_eq_some_iff.mp hc
    rfl
  | selectFacts query =>
    obtain ⟨d, hd, rfl⟩ := Option.map_eq_some_iff.mp hc
    rfl

theorem lower_select (kind : Kind) (term : Term) (type : Kind)
    (htype : subqueryType term = some type) (sql : List (Piece (Bound E)))
    (params : List (Bound E)) (hc : compileTerm readers kind term = some (.select sql params)) :
    hasLower params = term.selectTagged := by
  cases term with
  | selectResources query =>
    obtain ⟨d, hd, heq⟩ := Option.map_eq_some_iff.mp hc
    obtain ⟨-, rfl⟩ := Compiled.select.inj heq
    exact lower_compileTerm .resource query d hd
  | selectFacts query =>
    obtain ⟨d, hd, heq⟩ := Option.map_eq_some_iff.mp hc
    obtain ⟨-, rfl⟩ := Compiled.select.inj heq
    exact lower_compileTerm .fact query d hd
  | _ => cases htype

theorem lower_compileTerms (kind : Kind) (terms : List Term) (cs : List (Compiled E))
    (hcs : compileTerms readers kind terms = some cs) :
    (cs.any fun c => hasLower c.params) = Term.anyTagged kind terms := by
  cases terms with
  | nil =>
    obtain rfl := Option.some.inj hcs
    rfl
  | cons term terms =>
    obtain ⟨c, hc, hcs⟩ := Option.bind_eq_some_iff.mp hcs
    obtain ⟨rest, hrest, rfl⟩ := Option.map_eq_some_iff.mp hcs
    rw [List.any_cons, lower_compileTerm kind term c hc, lower_compileTerms kind terms rest hrest,
      Term.anyTagged]

end

end OpenVoxDB.LegacyQueries
