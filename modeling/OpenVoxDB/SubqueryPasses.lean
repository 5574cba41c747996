import Mathlib
import OpenVoxDB.Subqueries

/-!
# The passes on a subquery

What `expand-user-query`, `optimize-user-query` and the plan make of the two forms of a subquery,
when its filter is any query.
-/

namespace OpenVoxDB.Subqueries

open QueryExpansion InventoryRedirect Plans

/-! ## Lists of columns -/

/-- The columns of an `in` or an `extract`: one name, or a vector of names. -/
inductive Columns where
  | name (c : String)
  | names (cs : List String)
  deriving DecidableEq, Repr

namespace Columns

def toAst : Columns → Ast
  | name c => .str c
  | names cs => .made (cs.map .str)

def list : Columns → List String
  | name c => [c]
  | names cs => cs

/-- The columns after `expand-user-query`, which reads three names in a vector as an operation. -/
def expand (env : QueryExpansion.Env) : Columns → Columns
  | names [a, c, b] =>
    if c = "new_value" ∨ c = "old_value" then names [a, c, env.serialize (.str b)]
    else if c = "tag" then names [a, "tags", env.lowerCase b]
    else names [a, c, b]
  | columns => columns

/-- The first name of a vector is no operator. -/
def Sound : Columns → Prop
  | names (c :: _) => c ∉ operators
  | _ => True

/-- The name is the field of a row of `expand-query-node` that takes any operator. -/
def Rewritten : Columns → Prop
  | name c => c = "new_value" ∨ c = "old_value" ∨ c = "tag"
  | names _ => False

instance (columns : Columns) : Decidable columns.Rewritten :=
  match columns with
  | name _ => inferInstanceAs (Decidable (_ ∨ _ ∨ _))
  | names _ => inferInstanceAs (Decidable False)

@[simp] theorem columnList_toAst (columns : Columns) :
    columnList columns.toAst = some columns.list := by
  cases columns with
  | name c => rfl
  | names cs =>
    have hmap : (cs.map Ast.str).mapM Ast.str? = some cs := by
      induction cs with
      | nil => rfl
      | cons c cs ih =>
        rw [List.map_cons, List.mapM_cons, ih]
        rfl
    exact hmap

theorem names_eq (cs : List String) :
    (names cs).toAst = .made ((cs.map Json.str).map .lit) := by
  rw [toAst, List.map_map]
  rfl

end Columns

/-! ## The rows of operators that are no comparisons -/

/-- What the rows make of a node that none of those for other operators reads: the rows for any
operator are left. -/
theorem rows_of_quiet (env : QueryExpansion.Env) (ctx : Context) (op : String) (x y : Ast)
    (hsimple : op ∉ simpleBinaryOperators) (hsubquery : op ≠ "subquery")
    (hextract : extractRow ctx (.str op) x y = none)
    (hboth : activeOrInactiveRow (.str op) x y = none)
    (hfact : factRow env (.str op) x y = none) :
    (rows env ctx (.str op) x y).findSome? id =
      (changedValueRow env (.str op) x y).or (tagRow env (.str op) x y) := by
  simp only [simpleBinaryOperators, List.mem_cons, List.not_mem_nil, or_false, not_or] at hsimple
  obtain ⟨heq, hgt, hlt, hge, hle, hmatch, -⟩ := hsimple
  have hfactPath : factPathRow env (.str op) x y = none := by
    simp [factPathRow, Ast.isOp, Ast.str?, heq, hgt, hlt, hge, hle, hmatch]
  have hvalue : valueRow (.str op) x y = none := by
    simp [valueRow, Ast.isOp, Ast.isStr, Ast.str?, heq, hgt, hlt, hge, hle]
  have hany : typeAnyRow (.str op) x y = none := by
    simp [typeAnyRow, Ast.isStr, Ast.str?, heq]
  have hactive : nodeActiveRow (.str op) x y = none := by
    simp [nodeActiveRow, Ast.isStr, Ast.str?, heq]
  have hstate : nodeStateRow env (.str op) x y = none := by
    simp [nodeStateRow, Ast.isStr, Ast.str?, heq]
  have hparameter : parameterRow env (.str op) x y = none := by
    simp [parameterRow, Ast.isOp, Ast.str?, heq, hmatch]
  have hsub : subqueryRow ctx (.str op) x y = none := by
    simp [subqueryRow, Ast.isStr, Ast.str?, hsubquery]
  have hlatest : latestReportRow ctx (.str op) x y = none := by
    simp [latestReportRow, Ast.isStr, Ast.str?, heq]
  have hnull : nullRow (.str op) x y = none := by
    simp [nullRow, Ast.isStr, Ast.str?, heq]
  simp only [rows, hfactPath, hextract, hvalue, hany, hactive, hboth, hstate, hparameter,
    hfact, hsub, hlatest, hnull, List.findSome?_cons, List.findSome?_nil, id_eq]
  cases changedValueRow env (.str op) x y with
  | some o => rfl
  | none =>
    cases tagRow env (.str op) x y with
    | some o => rfl
    | none => rfl

theorem factRow_of_quiet (env : QueryExpansion.Env) (op : String) (x y : Ast)
    (hsimple : op ∉ simpleBinaryOperators) (harray : op = "in" → y.tagged? "array" = none) :
    factRow env (.str op) x y = none := by
  simp only [simpleBinaryOperators, List.mem_cons, List.not_mem_nil, or_false, not_or] at hsimple
  obtain ⟨heq, hgt, hlt, hge, hle, hmatch, -⟩ := hsimple
  unfold factRow
  cases x.tagged? "fact" with
  | none => rfl
  | some name =>
    by_cases hin : op = "in"
    · simp [Ast.isOp, Ast.isStr, Ast.str?, hin, harray hin]
    · simp [Ast.isOp, Ast.isStr, Ast.str?, heq, hgt, hlt, hge, hle, hmatch, hin]

theorem extractRow_of_ne (ctx : Context) (op : String) (x y : Ast) (h : op ≠ "extract") :
    extractRow ctx (.str op) x y = none := by
  simp [extractRow, Ast.isStr, Ast.str?, h]

theorem activeOrInactiveRow_of_ne (op : String) (x y : Ast) (h : op ≠ "or") :
    activeOrInactiveRow (.str op) x y = none := by
  simp [activeOrInactiveRow, Ast.isStr, Ast.str?, h]

/-! ## The expansion of columns -/

theorem numericFactFunctions_toAst (columns : Columns) :
    numericFactFunctions columns.toAst = false := by
  cases columns with
  | name c => rfl
  | names cs =>
    simp only [Columns.toAst, numericFactFunctions, List.any_map]
    rw [List.any_eq_false]
    intro c _
    simp [numericCall]

theorem not_connective_of_not_operator (op : String) (h : op ∉ operators) :
    op ≠ "and" ∧ op ≠ "or" ∧ op ≠ "not" := by
  simp only [operators, List.mem_append, List.mem_cons, List.not_mem_nil, or_false, not_or] at h
  exact ⟨h.1.2.2.2.2.1, h.1.2.2.2.2.2.1, h.1.2.2.2.2.2.2.1⟩

theorem validateBinaryOperators_of_quiet (env : QueryExpansion.Env) (ctx : Context) (op : String)
    (args : List Ast) (hsimple : op ∉ simpleBinaryOperators) (hand : op ≠ "and")
    (hor : op ≠ "or") (hnot : op ≠ "not") :
    validateBinaryOperators env (.vec ctx (.str op :: args)) = .ok () := by
  have hoperands : ∀ clauses, validateOperands op clauses = .ok () := by
    intro clauses
    simp [validateOperands, hand, hor, hnot, hsimple]
  simp only [simpleBinaryOperators, List.mem_cons, List.not_mem_nil, or_false, not_or] at hsimple
  obtain ⟨heq, hgt, hlt, hge, hle, hmatch, hpath⟩ := hsimple
  have hcomparison : ∀ x y, validateComparison env ctx op x y = none := by
    intro x y
    simp [validateComparison, heq, hgt, hlt, hge, hle, hpath]
  obtain _ | ⟨a, _ | ⟨b, _ | ⟨c, rest⟩⟩⟩ := args
  · exact hoperands _
  · exact hoperands _
  · simp only [validateBinaryOperators, hcomparison, Option.getD_none]
    exact hoperands _
  · exact hoperands _

/-- A visit that no row changes. -/
theorem visit_of_quiet (env : QueryExpansion.Env) (ctx : Context) (op : String) (args : List Ast)
    (hrow : expandQueryNode env (.vec ctx (.str op :: args)) = .ok none)
    (hsimple : op ∉ simpleBinaryOperators) (hand : op ≠ "and") (hor : op ≠ "or")
    (hnot : op ≠ "not") :
    visit env (.vec ctx (.str op :: args)) =
      .ok (.made (.str op :: args.filter fun a => !removable a)) := by
  have hvalid := validateBinaryOperators_of_quiet env ctx op args hsimple hand hor hnot
  simp only [visit, hrow, bind, Except.bind, Option.getD_none, hvalid]
  rfl

/-- A visit in which a row makes a node with the same operator. -/
theorem visit_of_row (env : QueryExpansion.Env) (node : Ast) (op : String) (args : List Ast)
    (hrow : expandQueryNode env node = .ok (some (.made (.str op :: args))))
    (hsimple : op ∉ simpleBinaryOperators) (hand : op ≠ "and") (hor : op ≠ "or")
    (hnot : op ≠ "not") :
    visit env node = .ok (.made (.str op :: args.filter fun a => !removable a)) := by
  have hvalid := validateBinaryOperators_of_quiet env .none op args hsimple hand hor hnot
  simp only [visit, hrow, bind, Except.bind, Option.getD_some, hvalid]
  rfl

theorem expandQueryNode_of_rows (env : QueryExpansion.Env) (ctx : Context) (op x y : Ast)
    (o : Option Outcome) (h : (rows env ctx op x y).findSome? id = o) :
    expandQueryNode env (.vec ctx [op, x, y]) = o.getD (.ok none) := by
  rw [← h]
  rfl

theorem visit_names (env : QueryExpansion.Env) (cs : List String)
    (h : (Columns.names cs).Sound) :
    visit env (Columns.names cs).toAst = .ok ((Columns.names cs).expand env).toAst := by
  have hkept : ∀ bs : List String, (bs.map Ast.str).filter (fun a => !removable a) =
      bs.map Ast.str := by
    intro bs
    apply List.filter_eq_self.mpr
    intro a ha
    obtain ⟨b, -, rfl⟩ := List.mem_map.mp ha
    rfl
  cases cs with
  | nil => rfl
  | cons op rest =>
    have hop : op ∉ operators := h
    have hsimple : op ∉ simpleBinaryOperators := by
      intro hmem
      exact hop (List.mem_append_right _ hmem)
    obtain ⟨hand, hor, hnot⟩ := not_connective_of_not_operator op hop
    simp only [operators, List.mem_append, List.mem_cons, not_or] at hop
    obtain ⟨⟨-, hin, hextract, hsubquery, -⟩, -⟩ := hop
    have hvisit := fun args hrow =>
      visit_of_quiet env .none op args hrow hsimple hand hor hnot
    obtain _ | ⟨c, _ | ⟨b, _ | ⟨d, more⟩⟩⟩ := rest
    · exact (hvisit [] rfl).trans (by rw [List.filter_nil]; rfl)
    · exact (hvisit [.str c] rfl).trans (by rfl)
    · have hrows := rows_of_quiet env .none op (.str c) (.str b) hsimple hsubquery
        (extractRow_of_ne .none op _ _ hextract) (activeOrInactiveRow_of_ne op _ _ hor)
        (factRow_of_quiet env op _ _ hsimple fun h => absurd h hin)
      by_cases hchanged : c = "new_value" ∨ c = "old_value"
      · have hrow : changedValueRow env (.str op) (.str c) (.str b) =
            some (.ok (some (.made [.str op, .str c, .str (env.serialize (.str b))]))) :=
          if_pos (by simpa [Ast.isOp, Ast.str?] using hchanged)
        rw [hrow] at hrows
        refine (visit_of_row env _ op _ (expandQueryNode_of_rows env .none _ _ _ _ hrows) hsimple
          hand hor hnot).trans ?_
        rw [Columns.expand, if_pos hchanged]
        rfl
      · have hrow : changedValueRow env (.str op) (.str c) (.str b) = none :=
          if_neg (by simpa [Ast.isOp, Ast.str?] using hchanged)
        by_cases htag : c = "tag"
        · have htagRow : tagRow env (.str op) (.str c) (.str b) =
              some (.ok (some (.made [.str op, .str "tags", .str (env.lowerCase b)]))) :=
            if_pos (by simpa [Ast.isStr, Ast.str?] using htag)
          rw [hrow, htagRow] at hrows
          refine (visit_of_row env _ op _ (expandQueryNode_of_rows env .none _ _ _ _ hrows) hsimple
            hand hor hnot).trans ?_
          rw [Columns.expand, if_neg hchanged, if_pos htag]
          rfl
        · have htagRow : tagRow env (.str op) (.str c) (.str b) = none :=
            if_neg (by simpa [Ast.isStr, Ast.str?] using htag)
          rw [hrow, htagRow] at hrows
          refine (hvisit _ (expandQueryNode_of_rows env .none _ _ _ _ hrows)).trans ?_
          rw [Columns.expand, if_neg hchanged, if_neg htag]
          rfl
    · refine (hvisit ((c :: b :: d :: more).map Ast.str) rfl).trans ?_
      rw [hkept]
      rfl

theorem expand_columns (env : QueryExpansion.Env) (columns : Columns) (h : columns.Sound) :
    expandUserQuery env columns.toAst = .ok (columns.expand env).toAst := by
  cases columns with
  | name c => exact expandUserQuery_lit env (.str c)
  | names cs =>
    have hvisit := visit_names env cs h
    rw [Columns.names_eq] at hvisit ⊢
    rw [expandUserQuery_lits]
    exact hvisit

namespace Columns

theorem Sound.expand {env : QueryExpansion.Env} {columns : Columns} (h : columns.Sound) :
    (columns.expand env).Sound := by
  unfold Columns.expand
  split
  · split
    · exact h
    · split
      · exact h
      · exact h
  · exact h

theorem Sound.removable {columns : Columns} (h : columns.Sound) :
    removable columns.toAst = false := by
  cases columns with
  | name c => rfl
  | names cs =>
    obtain _ | ⟨c, _ | ⟨b, rest⟩⟩ := cs
    · rfl
    · have hc : c ∉ operators := h
      obtain ⟨hand, hor, hnot⟩ := not_connective_of_not_operator c hc
      simp [toAst, QueryExpansion.removable, hand, hor, hnot]
    · exact removable_vec_cons_cons _ _ _ _

theorem Rewritten.expand {env : QueryExpansion.Env} {columns : Columns} :
    (columns.expand env).Rewritten ↔ columns.Rewritten := by
  cases columns with
  | name c => exact Iff.rfl
  | names cs =>
    unfold Columns.expand
    split
    · split
      · exact Iff.rfl
      · split
        · exact Iff.rfl
        · exact Iff.rfl
    · exact Iff.rfl

end Columns

/-! ## The operators of what is made -/

/-- The operators that the rows put in the place of another. -/
def madeOperators : List String := ["and", "or", "in", "not", "extract", "null?"]

/-- What an operation becomes: nothing, or an operation again. -/
def Headed (op : String) (a : Ast) : Prop :=
  a = .elide ∨ ∃ w args, a = .made (.str w :: args) ∧ (w = op ∨ w ∈ madeOperators)

theorem headed_made (op w : String) (args : List Ast) (h : w ∈ madeOperators) :
    Headed op (.made (.str w :: args)) :=
  Or.inr ⟨w, args, rfl, Or.inr h⟩

theorem headed_self (op : String) (args : List Ast) : Headed op (.made (.str op :: args)) :=
  Or.inr ⟨op, args, rfl, Or.inl rfl⟩

theorem headed_inCertname (op : String) (subquery : List Ast) :
    Headed op (inCertname subquery) :=
  headed_made op "in" _ (by decide)

theorem maybeAddMatchFunctionFilter_headed (env : QueryExpansion.Env) (op field : String)
    (parts : List Part) (value n : Ast)
    (h : maybeAddMatchFunctionFilter env (.str op) field parts value = .ok n) : Headed op n := by
  unfold maybeAddMatchFunctionFilter at h
  simp only at h
  split at h
  · obtain ⟨fields, -, h⟩ := (bind_eq_ok _ _ _).mp h
    rw [← Except.ok.inj h]
    split
    · exact headed_made op "or" _ (by decide)
    · exact headed_self op _
    · exact headed_made op "or" _ (by decide)
  · split at h
    · rw [← Except.ok.inj h]
      exact headed_self op _
    · rw [← Except.ok.inj h]
      exact headed_self op _

theorem row_headed (env : QueryExpansion.Env) (ctx : Context) (op : String) (x y n : Ast)
    (hmem : some (.ok (some n)) ∈ rows env ctx (.str op) x y) : Headed op n := by
  simp only [rows, List.mem_cons, List.not_mem_nil, or_false] at hmem
  obtain h | h | h | h | h | h | h | h | h | h | h | h | h | h := hmem
  · unfold factPathRow at h
    repeat' split at h
    all_goals try cases h
    obtain ⟨m, hm, hmn⟩ := (map_eq_ok _ _ _).mp (Option.some.inj h.symm)
    cases hmn
    exact maybeAddMatchFunctionFilter_headed env op _ _ y n hm
  · unfold extractRow at h
    repeat' split at h
    all_goals cases h
    exact headed_made op "extract" _ (by decide)
  · unfold valueRow at h
    repeat' split at h
    all_goals cases h
    all_goals exact headed_made op "and" _ (by decide)
  · unfold typeAnyRow at h
    split at h <;> cases h
    exact Or.inl rfl
  · unfold nodeActiveRow at h
    split at h <;> cases h
    split
    · exact headed_made op "not" _ (by decide)
    · exact headed_inCertname op _
  · unfold activeOrInactiveRow at h
    split at h <;> cases h
    exact Or.inl rfl
  · unfold nodeStateRow at h
    repeat' split at h
    all_goals cases h
    · exact headed_made op "not" _ (by decide)
    · exact headed_inCertname op _
    · exact Or.inl rfl
  · unfold parameterRow at h
    split at h <;> cases h
    exact headed_made op "in" _ (by decide)
  · unfold factRow at h
    repeat' split at h
    all_goals cases h
    all_goals exact headed_inCertname op _
  · unfold subqueryRow at h
    simp only at h
    repeat' split at h
    all_goals cases h
    exact headed_made op "in" _ (by decide)
  · unfold latestReportRow at h
    repeat' split at h
    all_goals cases h
    exact headed_self op _
  · unfold changedValueRow at h
    split at h <;> cases h
    exact headed_self op _
  · unfold nullRow at h
    repeat' split at h
    all_goals cases h
    exact headed_made op "null?" _ (by decide)
  · unfold tagRow at h
    repeat' split at h
    all_goals cases h
    exact headed_self op _

theorem removeElidedNodes_headed (op : String) (a : Ast) (h : Headed op a) :
    Headed op (removeElidedNodes a) := by
  obtain rfl | ⟨w, args, rfl, hw⟩ := h
  · exact Or.inl rfl
  · exact Or.inr ⟨w, args.filter fun a => !removable a, rfl, hw⟩

/-- The expansion of an operation. -/
theorem expand_headed (env : QueryExpansion.Env) (ctx : Context) (op : String) (args : List Ast)
    (r : Ast) (h : expandUserQuery env (.vec ctx (.str op :: args)) = .ok r) : Headed op r := by
  obtain ⟨ys, hys, hvisit⟩ := expandUserQuery_vec_eq_ok env ctx _ r h
  obtain ⟨y, args', hy, -, rfl⟩ := expandAll_cons_eq_ok env _ _ ys hys
  rw [expandUserQuery_lit] at hy
  cases hy
  obtain ⟨o, ho, rfl⟩ := visit_eq_ok env _ r hvisit
  cases o with
  | none => exact Or.inr ⟨op, args'.filter fun a => !removable a, rfl, Or.inl rfl⟩
  | some n =>
    apply removeElidedNodes_headed
    obtain _ | ⟨x, _ | ⟨y, _ | ⟨z, more⟩⟩⟩ := args'
    · cases ho
    · cases ho
    · exact row_headed env ctx op x y n (exists_row env ctx _ x y n ho)
    · cases ho

/-! ## The expansion of a subquery -/

/-- The first operand of a node that the rows for any operator leave alone. -/
structure Inert (a : Ast) : Prop where
  changed : a.isOp ["new_value", "old_value"] = false
  tag : a.isStr "tag" = false
  functions : numericFactFunctions a = false
  stays : removable a = false

theorem inert_columns (columns : Columns) (hsound : columns.Sound)
    (hkept : ¬ columns.Rewritten) : Inert columns.toAst := by
  constructor
  · cases columns with
    | name c =>
      simp only [Columns.Rewritten, not_or] at hkept
      simp [Columns.toAst, Ast.isOp, Ast.str?, hkept]
    | names cs => rfl
  · cases columns with
    | name c =>
      simp only [Columns.Rewritten, not_or] at hkept
      simp [Columns.toAst, Ast.isStr, Ast.str?, hkept]
    | names cs => rfl
  · exact numericFactFunctions_toAst columns
  · exact hsound.removable

theorem inert_entity (e : EntityName) : Inert (.str e.text) := by
  cases e <;> constructor <;> decide

/-- What is left of an operand. -/
def kept (a : Ast) : List Ast := [a].filter fun a => !removable a

theorem toOption_map_of_ok {ε α β : Type} (r : Except ε α) (s : Except ε β) (f : α → β)
    (hok : ∀ a, r = .ok a → s = .ok (f a)) (herror : ∀ b, s = .ok b → ∃ a, r = .ok a) :
    s.toOption = r.toOption.map f := by
  cases hr : r with
  | ok a =>
    rw [hok a hr]
    rfl
  | error err =>
    cases hs : s with
    | ok b =>
      obtain ⟨a, ha⟩ := herror b hs
      rw [hr] at ha
      cases ha
    | error err' => rfl

theorem expandAll_three (env : QueryExpansion.Env) (op : String) (a a' b b' : Ast)
    (ha : expandUserQuery env a = .ok a') (hb : expandUserQuery env b = .ok b') :
    expandAll env [.str op, a, b] = .ok [.str op, a', b'] := by
  simp only [expandAll, expandUserQuery_lit, ha, hb, bind, Except.bind, pure, Except.pure]

/-- A node of a subquery is expanded as its last operand is. -/
theorem expand_node (env : QueryExpansion.Env) (ctx : Context) (op : String) (a a' b : Ast)
    (hop : op ∈ ["in", "extract", "from"]) (ha : expandUserQuery env a = .ok a')
    (hinert : Inert a')
    (harray : op = "in" → ∀ b', expandUserQuery env b = .ok b' → b'.tagged? "array" = none) :
    (expandUserQuery env (.vec ctx [.str op, a, b])).toOption =
      (expandUserQuery env b).toOption.map fun b' => .made (.str op :: a' :: kept b') := by
  have hwords : op ∉ simpleBinaryOperators ∧ op ≠ "and" ∧ op ≠ "or" ∧ op ≠ "not" ∧
      op ≠ "subquery" := by
    simp only [List.mem_cons, List.not_mem_nil, or_false] at hop
    obtain rfl | rfl | rfl := hop <;> decide
  obtain ⟨hsimple, hand, hor, hnot, hsubquery⟩ := hwords
  apply toOption_map_of_ok
  · intro b' hb
    have hextract : extractRow ctx (.str op) a' b' = none := by
      simp [extractRow, hinert.functions]
    have hrows := rows_of_quiet env ctx op a' b' hsimple hsubquery hextract
      (activeOrInactiveRow_of_ne op _ _ hor) (factRow_of_quiet env op _ _ hsimple fun hin =>
        harray hin b' hb)
    have hchanged : changedValueRow env (.str op) a' b' = none := by
      simp [changedValueRow, hinert.changed]
    have htag : tagRow env (.str op) a' b' = none := by
      simp [tagRow, hinert.tag]
    rw [hchanged, htag] at hrows
    have hnode := expandQueryNode_of_rows env ctx _ _ _ _ hrows
    rw [expandUserQuery, expandAll_three env op a a' b b' ha hb]
    refine (visit_of_quiet env ctx op [a', b'] hnode hsimple hand hor hnot).trans ?_
    simp only [kept, List.filter_cons, hinert.stays, Bool.not_false, if_true]
  · intro r hr
    obtain ⟨ys, hys, -⟩ := expandUserQuery_vec_eq_ok env ctx _ r hr
    obtain ⟨_, _, -, hys, -⟩ := expandAll_cons_eq_ok env _ _ ys hys
    obtain ⟨_, _, -, hys, -⟩ := expandAll_cons_eq_ok env _ _ _ hys
    obtain ⟨b', _, hb', -, -⟩ := expandAll_cons_eq_ok env _ _ _ hys
    exact ⟨b', hb'⟩

/-- The rows for any operator put a text in the place of a subquery. -/
theorem expand_changed (env : QueryExpansion.Env) (ctx : Context) (op c : String) (b : Ast)
    (hop : op ∈ ["in", "extract"]) (hc : c = "new_value" ∨ c = "old_value") :
    (expandUserQuery env (.vec ctx [.str op, .str c, b])).toOption =
      (expandUserQuery env b).toOption.map fun b' =>
        .made [.str op, .str c, .str (env.serialize b')] := by
  have hwords : op ∉ simpleBinaryOperators ∧ op ≠ "and" ∧ op ≠ "or" ∧ op ≠ "not" ∧
      op ≠ "subquery" := by
    simp only [List.mem_cons, List.not_mem_nil, or_false] at hop
    obtain rfl | rfl := hop <;> decide
  obtain ⟨hsimple, hand, hor, hnot, hsubquery⟩ := hwords
  have hall : ∀ b', expandUserQuery env b = .ok b' →
      expandAll env [.str op, .str c, b] = .ok [.str op, .str c, b'] := fun b' hb =>
    expandAll_three env op _ _ b b' (expandUserQuery_lit env _) hb
  apply toOption_map_of_ok
  · intro b' hb
    have hrows := rows_of_quiet env ctx op (.str c) b' hsimple hsubquery
      (by simp [extractRow, numericFactFunctions]) (activeOrInactiveRow_of_ne op _ _ hor) rfl
    have hrow : changedValueRow env (.str op) (.str c) b' =
        some (.ok (some (.made [.str op, .str c, .str (env.serialize b')]))) :=
      if_pos (by simpa [Ast.isOp, Ast.str?] using hc)
    rw [hrow] at hrows
    rw [expandUserQuery, hall b' hb]
    exact visit_of_row env _ op _ (expandQueryNode_of_rows env ctx _ _ _ _ hrows) hsimple hand hor
      hnot
  · intro r hr
    obtain ⟨ys, hys, -⟩ := expandUserQuery_vec_eq_ok env ctx _ r hr
    obtain ⟨_, _, -, hys, -⟩ := expandAll_cons_eq_ok env _ _ ys hys
    obtain ⟨_, _, -, hys, -⟩ := expandAll_cons_eq_ok env _ _ _ hys
    obtain ⟨b', _, hb', -, -⟩ := expandAll_cons_eq_ok env _ _ _ hys
    exact ⟨b', hb'⟩

/-- The tag is compared with texts only. -/
theorem expand_tag (env : QueryExpansion.Env) (ctx : Context) (op : String) (b : Ast)
    (hop : op ∈ ["in", "extract"]) (hb : ∀ b', expandUserQuery env b = .ok b' → b'.str? = none) :
    (expandUserQuery env (.vec ctx [.str op, .str "tag", b])).toOption = none := by
  have hwords : op ∉ simpleBinaryOperators ∧ op ≠ "or" ∧ op ≠ "subquery" := by
    simp only [List.mem_cons, List.not_mem_nil, or_false] at hop
    obtain rfl | rfl := hop <;> decide
  obtain ⟨hsimple, hor, hsubquery⟩ := hwords
  cases hbody : expandUserQuery env b with
  | error e =>
    simp only [expandUserQuery, expandAll, hbody, bind, Except.bind]
    rfl
  | ok b' =>
    have hrows := rows_of_quiet env ctx op (.str "tag") b' hsimple hsubquery
      (by simp [extractRow, numericFactFunctions]) (activeOrInactiveRow_of_ne op _ _ hor) rfl
    have hrow : tagRow env (.str op) (.str "tag") b' = some (.error "not a tag") := by
      simp [tagRow, Ast.isStr, hb b' hbody]
      rfl
    have hchanged : changedValueRow env (.str op) (.str "tag") b' = none := rfl
    rw [hrow, hchanged] at hrows
    rw [expandUserQuery, expandAll_three env op _ _ b b' (expandUserQuery_lit env _) hbody]
    have hnode := expandQueryNode_of_rows env ctx _ _ _ _ hrows
    simp only [bind, Except.bind, visit, hnode]
    rfl

theorem selectName_words (e : EntityName) : e.selectName ∉ simpleBinaryOperators ∧
    e.selectName ≠ "and" ∧ e.selectName ≠ "or" ∧ e.selectName ≠ "not" := by
  cases e <;> decide +kernel

/-- And so is a `select_<entity>`. -/
theorem expand_select (env : QueryExpansion.Env) (ctx : Context) (e : EntityName) (f : Ast) :
    (expandUserQuery env (.vec ctx [.str e.selectName, f])).toOption =
      (expandUserQuery env f).toOption.map fun f' => .made (.str e.selectName :: kept f') := by
  obtain ⟨hsimple, hand, hor, hnot⟩ := selectName_words e
  apply toOption_map_of_ok
  · intro f' hf
    have hall : expandAll env [.str e.selectName, f] = .ok [.str e.selectName, f'] := by
      simp only [expandAll, expandUserQuery_lit, hf, bind, Except.bind, pure, Except.pure]
    rw [expandUserQuery, hall]
    exact visit_of_quiet env ctx _ [f'] rfl hsimple hand hor hnot
  · intro r hr
    obtain ⟨ys, hys, -⟩ := expandUserQuery_vec_eq_ok env ctx _ r hr
    obtain ⟨_, _, -, hys, -⟩ := expandAll_cons_eq_ok env _ _ ys hys
    obtain ⟨f', _, hf', -, -⟩ := expandAll_cons_eq_ok env _ _ _ hys
    exact ⟨f', hf'⟩

end OpenVoxDB.Subqueries
