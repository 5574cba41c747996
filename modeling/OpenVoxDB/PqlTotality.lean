import Mathlib
import OpenVoxDB.PqlTrees
import OpenVoxDB.Success

/-!
# Which trees are transformed

The grammar accepts more than the functions of the transformation: an implicit
subquery with several clauses, a string that JSON does not have and an integer that
is no `long` end in an exception that is no `bad-query-ex`.
-/

namespace OpenVoxDB.Pql

/-! ## What each leaf needs -/

def PqlString.Transformable : PqlString → Prop
  | .dqstring s => jsonText s.chars = true
  | .sqstring _ => True

def PqlInteger.Transformable (n : PqlInteger) : Prop := isLong n.value = true

mutual

def Literal.Transformable : Literal → Prop
  | .string s => s.Transformable
  | .integer n => n.Transformable
  | .real _ | .boolean _ => True
  | .array first rest => first.Transformable ∧ allTransformable rest

def allTransformable : List Literal → Prop
  | [] => True
  | l :: ls => l.Transformable ∧ allTransformable ls

end

def Arg.Transformable : Arg → Prop
  | .field _ => True
  | .string s => s.Transformable

def Column.Transformable : Column → Prop
  | .field _ | .function _ none => True
  | .function _ (some (arg, strings)) => arg.Transformable ∧ ∀ s ∈ strings, s.Transformable

def InColumns.Transformable : InColumns → Prop
  | .field _ => True
  | .list first rest => ∀ c ∈ first :: rest, c.Transformable

def ValueOrdered.Transformable : ValueOrdered → Prop
  | .integer n => n.Transformable
  | .real _ => True
  | .string s => s.Transformable

def Condexpression.Transformable : Condexpression → Prop
  | .regexp _ value => value.Transformable
  | .regexparray _ first rest => ∀ s ∈ first :: rest, s.Transformable
  | .inequality _ _ value => value.Transformable
  | .isEqual _ value | .notEqual _ value | .notRegexp _ value => value.Transformable
  | .inLiterals columns first rest => columns.Transformable ∧ allTransformable (first :: rest)
  | .null _ _ => True

def Paging.Transformable : Paging → Prop
  | .limit n | .offset n => n.Transformable
  | .orderby _ _ => True

def Clauses.Transformable : Clauses → Prop
  | .groupby first rest => ∀ c ∈ first :: rest, c.Transformable
  | .paging clauses => ∀ p ∈ clauses, p.Transformable

/-- How many clauses the transformation makes of these. -/
def Clauses.count : Clauses → Nat
  | .groupby _ _ => 1
  | .paging clauses => clauses.length

/-- How many arguments a `where` gives, with its expression. -/
def Where.count : Where → Nat
  | .all clauses => clauses.count
  | .expr _ clauses => clauses.count + 1

mutual

def ExprOr.Transformable : ExprOr → Prop
  | .single a => a.Transformable
  | .or a b => a.Transformable ∧ b.Transformable

def ExprAnd.Transformable : ExprAnd → Prop
  | .single a => a.Transformable
  | .and a b => a.Transformable ∧ b.Transformable

def ExprNot.Transformable : ExprNot → Prop
  | .not a => a.Transformable
  | .parens e => e.Transformable
  | .cond c => c.Transformable
  | .inQuery columns q => columns.Transformable ∧ q.Transformable
  | .subquery _ w => w.Transformable ∧ w.count ≤ 1

def Where.Transformable : Where → Prop
  | .all clauses => clauses.Transformable
  | .expr e clauses => e.Transformable ∧ clauses.Transformable

/-- Strings are strings of JSON, integers are `long`s and implicit subqueries have one clause at
most, at every level. -/
def From.Transformable : From → Prop
  | .mk _ none w => w.Transformable
  | .mk _ (some columns) w => (∀ c ∈ columns, c.Transformable) ∧ w.Transformable

end

variable (json : JsonDecoder)

theorem succeeds_transformString (s : PqlString) :
    Succeeds (transformString json s) ↔ s.Transformable := by
  cases s with
  | sqstring s => exact iff_of_true (succeeds_ok _) trivial
  | dqstring s =>
    rw [PqlString.Transformable, ← json.reads, transformString]
    cases json.decode s.chars with
    | none => exact iff_of_false (not_succeeds_error _) (by simp)
    | some text => exact iff_of_true (succeeds_ok _) rfl

theorem succeeds_transformInteger (n : PqlInteger) :
    Succeeds (transformInteger n) ↔ n.Transformable := by
  rw [transformInteger, PqlInteger.Transformable]
  split
  · next h => exact iff_of_true (succeeds_ok _) h
  · next h => exact iff_of_false (not_succeeds_error _) h

mutual

theorem succeeds_transformLiteral : (l : Literal) →
    (Succeeds (transformLiteral json l) ↔ l.Transformable)
  | .string s => by
    rw [transformLiteral, Literal.Transformable]
    exact succeeds_transformString json s
  | .integer n => by
    rw [transformLiteral, Literal.Transformable]
    exact succeeds_transformInteger n
  | .real x => iff_of_true (succeeds_ok _) trivial
  | .boolean b => iff_of_true (succeeds_ok _) trivial
  | .array first rest => by
    rw [transformLiteral, Literal.Transformable, ← succeeds_transformLiteral first,
      ← succeeds_transformLiterals rest]
    apply succeeds_bind_of_forall
    intro x _
    exact succeeds_map _ _

theorem succeeds_transformLiterals : (ls : List Literal) →
    (Succeeds (transformLiterals json ls) ↔ allTransformable ls)
  | [] => iff_of_true (succeeds_ok _) trivial
  | l :: ls => by
    rw [transformLiterals, allTransformable, ← succeeds_transformLiteral l,
      ← succeeds_transformLiterals ls]
    apply succeeds_bind_of_forall
    intro x _
    exact succeeds_map _ _

end

theorem succeeds_transformColumn (c : Column) :
    Succeeds (transformColumn json c) ↔ c.Transformable := by
  cases c with
  | field f => exact iff_of_true (succeeds_ok _) trivial
  | function functionname arglist =>
    cases arglist with
    | none => exact iff_of_true (succeeds_ok _) trivial
    | some args =>
      obtain ⟨arg, strings⟩ := args
      have harg : Succeeds (transformArg json arg) ↔ arg.Transformable := by
        cases arg with
        | field f => exact iff_of_true (succeeds_ok _) trivial
        | string s => exact succeeds_transformString json s
      rw [transformColumn, Column.Transformable, ← harg]
      apply succeeds_bind_of_forall
      intro x _
      rw [← forall₂_congr fun s _ => succeeds_transformString json s, ← succeeds_mapM]
      exact succeeds_map _ _

theorem succeeds_mapM_transformColumn (columns : List Column) :
    Succeeds (columns.mapM (transformColumn json)) ↔ ∀ c ∈ columns, c.Transformable := by
  rw [succeeds_mapM]
  exact forall₂_congr fun c _ => succeeds_transformColumn json c

theorem succeeds_transformInColumns (columns : InColumns) :
    Succeeds (transformInColumns json columns) ↔ columns.Transformable := by
  cases columns with
  | field f => exact iff_of_true (succeeds_ok _) trivial
  | list first rest =>
    rw [InColumns.Transformable, ← succeeds_mapM_transformColumn json]
    exact succeeds_map _ _

theorem succeeds_transformCondexpression (c : Condexpression) :
    Succeeds (transformCondexpression json c) ↔ c.Transformable := by
  cases c with
  | regexp f value =>
    rw [Condexpression.Transformable, ← succeeds_transformString json]
    exact succeeds_map _ _
  | regexparray f first rest =>
    rw [Condexpression.Transformable,
      ← forall₂_congr fun s _ => succeeds_transformString json s, ← succeeds_mapM]
    exact succeeds_map _ _
  | inequality f op value =>
    have hvalue : Succeeds (transformValueOrdered json value) ↔ value.Transformable := by
      cases value with
      | integer n => exact succeeds_transformInteger n
      | real x => exact iff_of_true (succeeds_ok _) trivial
      | string s => exact succeeds_transformString json s
    rw [Condexpression.Transformable, ← hvalue]
    exact succeeds_map _ _
  | isEqual f value =>
    rw [Condexpression.Transformable, ← succeeds_transformLiteral json]
    exact succeeds_map _ _
  | notEqual f value =>
    rw [Condexpression.Transformable, ← succeeds_transformLiteral json]
    exact succeeds_map _ _
  | notRegexp f value =>
    rw [Condexpression.Transformable, ← succeeds_transformLiteral json]
    exact succeeds_map _ _
  | inLiterals columns first rest =>
    rw [Condexpression.Transformable, ← succeeds_transformInColumns json,
      ← succeeds_transformLiterals json]
    apply succeeds_bind_of_forall
    intro x _
    exact succeeds_map _ _
  | null f isNull => exact iff_of_true (succeeds_ok _) trivial

theorem succeeds_transformPaging (p : Paging) :
    Succeeds (transformPaging p) ↔ p.Transformable := by
  cases p with
  | limit n =>
    rw [Paging.Transformable, ← succeeds_transformInteger]
    exact succeeds_map _ _
  | offset n =>
    rw [Paging.Transformable, ← succeeds_transformInteger]
    exact succeeds_map _ _
  | orderby first rest => exact iff_of_true (succeeds_ok _) trivial

theorem succeeds_transformClauses (clauses : Clauses) :
    Succeeds (transformClauses json clauses) ↔ clauses.Transformable := by
  cases clauses with
  | groupby first rest =>
    rw [Clauses.Transformable, ← succeeds_mapM_transformColumn json]
    exact succeeds_map _ _
  | paging clauses =>
    rw [transformClauses, succeeds_mapM, Clauses.Transformable]
    exact forall₂_congr fun p _ => succeeds_transformPaging p

theorem length_mapM {ε α β : Type} (f : α → Except ε β) (xs : List α) (ys : List β)
    (h : xs.mapM f = .ok ys) : ys.length = xs.length := by
  induction xs generalizing ys with
  | nil =>
    cases h
    rfl
  | cons x xs ih =>
    rw [List.mapM_cons] at h
    obtain ⟨y, -, h⟩ := (QueryExpansion.bind_eq_ok _ _ _).mp h
    obtain ⟨ys', hys', h⟩ := (QueryExpansion.bind_eq_ok _ _ _).mp h
    cases h
    simp [ih ys' hys']

theorem length_transformClauses (clauses : Clauses) (xs : List Json)
    (h : transformClauses json clauses = .ok xs) : xs.length = clauses.count := by
  cases clauses with
  | groupby first rest =>
    obtain ⟨ys, -, h⟩ := (QueryExpansion.bind_eq_ok _ _ _).mp h
    cases h
    rfl
  | paging clauses => exact length_mapM _ _ _ h

theorem length_transformWhere (w : Where) (xs : List Json)
    (h : transformWhere json w = .ok xs) : xs.length = w.count := by
  cases w with
  | all clauses =>
    rw [transformWhere] at h
    exact length_transformClauses json clauses xs h
  | expr e clauses =>
    rw [transformWhere] at h
    obtain ⟨x, -, h⟩ := (QueryExpansion.bind_eq_ok _ _ _).mp h
    obtain ⟨ys, hys, h⟩ := (QueryExpansion.bind_eq_ok _ _ _).mp h
    cases h
    simp [Where.count, length_transformClauses json clauses ys hys]

theorem succeeds_transformSubquery (entity : String) (xs : List Json) :
    Succeeds (transformSubquery entity xs) ↔ xs.length ≤ 1 := by
  match xs with
  | [] => exact iff_of_true (succeeds_ok _) (by simp)
  | [x] => exact iff_of_true (succeeds_ok _) (by simp)
  | x :: y :: xs => exact iff_of_false (not_succeeds_error _) (by simp)

mutual

theorem succeeds_transformExprOr : (e : ExprOr) →
    (Succeeds (transformExprOr json e) ↔ e.Transformable)
  | .single a => by
    rw [transformExprOr, ExprOr.Transformable]
    exact succeeds_transformExprAnd a
  | .or a b => by
    rw [transformExprOr, ExprOr.Transformable, ← succeeds_transformExprAnd a,
      ← succeeds_transformExprOr b]
    apply succeeds_bind_of_forall
    intro x _
    exact succeeds_map _ _

theorem succeeds_transformExprAnd : (e : ExprAnd) →
    (Succeeds (transformExprAnd json e) ↔ e.Transformable)
  | .single a => by
    rw [transformExprAnd, ExprAnd.Transformable]
    exact succeeds_transformExprNot a
  | .and a b => by
    rw [transformExprAnd, ExprAnd.Transformable, ← succeeds_transformExprNot a,
      ← succeeds_transformExprAnd b]
    apply succeeds_bind_of_forall
    intro x _
    exact succeeds_map _ _

theorem succeeds_transformExprNot : (e : ExprNot) →
    (Succeeds (transformExprNot json e) ↔ e.Transformable)
  | .not a => by
    rw [transformExprNot, ExprNot.Transformable, ← succeeds_transformExprNot a]
    exact succeeds_map _ _
  | .parens e => by
    rw [transformExprNot, ExprNot.Transformable]
    exact succeeds_transformExprOr e
  | .cond c => by
    rw [transformExprNot, ExprNot.Transformable]
    exact succeeds_transformCondexpression json c
  | .inQuery columns q => by
    rw [transformExprNot, ExprNot.Transformable, ← succeeds_transformInColumns json,
      ← succeeds_transformFrom q]
    apply succeeds_bind_of_forall
    intro x _
    exact succeeds_map _ _
  | .subquery entity w => by
    rw [transformExprNot, ExprNot.Transformable, ← succeeds_transformWhere w]
    apply succeeds_bind_of_forall
    intro xs hxs
    rw [succeeds_transformSubquery, length_transformWhere json w xs hxs]

theorem succeeds_transformWhere : (w : Where) →
    (Succeeds (transformWhere json w) ↔ w.Transformable)
  | .all clauses => by
    rw [transformWhere, Where.Transformable]
    exact succeeds_transformClauses json clauses
  | .expr e clauses => by
    rw [transformWhere, Where.Transformable, ← succeeds_transformExprOr e,
      ← succeeds_transformClauses json clauses]
    apply succeeds_bind_of_forall
    intro x _
    exact succeeds_map _ _

theorem succeeds_transformFrom : (q : From) →
    (Succeeds (transformFrom json q) ↔ q.Transformable)
  | .mk entity none w => by
    rw [transformFrom, From.Transformable, ← succeeds_transformWhere w]
    exact succeeds_map _ _
  | .mk entity (some columns) w => by
    rw [transformFrom, From.Transformable, ← succeeds_mapM_transformColumn json,
      ← succeeds_transformWhere w]
    apply succeeds_bind_of_forall
    intro x _
    exact succeeds_map _ _

end

/-- `nodes { facts { name = 'a' limit 1 } }` -/
def singleQuotedA : Quoted '\'' := ⟨['a'], by simp [stringWithoutQuotes]⟩

def limitOne : Paging :=
  .limit ⟨false, ⟨['1'], by simp, by simp [FieldSyntax.isDigit]⟩⟩

def pagedSubquery : From :=
  .mk "nodes" none (.expr (.single (.single (.subquery "facts"
    (.expr (.single (.single (.cond (.isEqual (.name "name") (.string (.sqstring singleQuotedA))))))
      (.paging [limitOne]))))) (.paging []))

/-- A decoder that leaves escapes as they are: on a text without any, it decodes JSON. -/
def plainJson : JsonDecoder where
  decode cs := if jsonText cs then some (String.ofList cs) else none
  reads cs := by split <;> simp_all

theorem transformInteger_one :
    transformInteger ⟨false, ⟨['1'], by simp, by simp [FieldSyntax.isDigit]⟩⟩ = .ok (.int 1) := by
  simp [transformInteger, PqlInteger.value, Digits.value, isLong, Nat.ofDigitChars]

end OpenVoxDB.Pql
