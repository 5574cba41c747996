import Mathlib
import OpenVoxDB.PqlMeaning

/-!
# The reading of a PQL query is its meaning

Flattening `and` and `or` keeps the filter at every depth. The clauses after the
filter are another matter: a grouping without a projection, and every grouping and
some paging below the top, are in the AST and not read.
-/

namespace OpenVoxDB.Pql

/-! ## Nodes that are read -/

section Nodes

variable {Row : Type} (M : Model Row)

theorem readNode_and (xs : List Json) : readNode M (.arr (.str "and" :: xs)) =
    (readOperands M xs).map fun fs => some fun row => Truth.all (fs.map (· row)) := by
  unfold readNode
  exact if_pos rfl

theorem readNode_or (xs : List Json) : readNode M (.arr (.str "or" :: xs)) =
    (readOperands M xs).map fun fs => some fun row => Truth.any (fs.map (· row)) := by
  unfold readNode
  rw [if_neg (by decide), if_pos rfl]

theorem readNode_not (x : Json) (f : Row → Truth) (hx : readNode M x = some (some f)) :
    readNode M (.arr [.str "not", x]) = some (some fun row => (f row).not) := by
  rw [readNode.eq_def]
  simp [hx]

theorem readNode_inArray (cols : Json) (xs : List Json) :
    readNode M (.arr [.str "in", cols, .arr (.str "array" :: xs)]) =
      some (some (M.atom (.arr [.str "in", cols, .arr (.str "array" :: xs)]))) := by
  rw [readNode.eq_def]
  simp

theorem readNode_inFrom (cols ast : Json) (s : Selection Row) (hast : readFrom M ast = some s) :
    readNode M (.arr [.str "in", cols, ast]) = some (some (M.inQuery cols s)) := by
  unfold readFrom at hast
  split at hast
  · rw [readNode.eq_def]
    simp [hast]
  · cases hast

theorem readNode_subquery (ast : Json) (s : Selection Row) (hast : readSubquery M ast = some s) :
    readNode M ast = some (some (M.subquery s)) := by
  unfold readSubquery at hast
  split at hast
  · obtain ⟨f, hf, rfl⟩ := Option.map_eq_some_iff.mp hast
    rw [readNode.eq_def]
    simp [hf]
  · cases hast

theorem readNode_comparison (op : String) (x y : Json) (hop : op ∈ comparisonOperators) :
    readNode M (.arr [.str op, x, y]) = some (some (M.atom (.arr [.str op, x, y]))) := by
  have hne : op ≠ "and" ∧ op ≠ "or" ∧ op ≠ "not" ∧ op ≠ "in" ∧ op ≠ "subquery" := by
    simp only [comparisonOperators, List.mem_cons, List.not_mem_nil, or_false] at hop
    obtain rfl | rfl | rfl | rfl | rfl | rfl | rfl | rfl := hop <;> decide
  rw [readNode.eq_def]
  simp [hne, hop]

theorem readOperands_cons (x : Json) (xs : List Json) (f : Row → Truth) (fs : List (Row → Truth))
    (hx : readNode M x = some (some f)) (hxs : readOperands M xs = some fs) :
    readOperands M (x :: xs) = some (f :: fs) := by
  rw [readOperands]
  simp [hx, hxs]

theorem readOperands_append (xs ys : List Json) (fs gs : List (Row → Truth))
    (hxs : readOperands M xs = some fs) (hys : readOperands M ys = some gs) :
    readOperands M (xs ++ ys) = some (fs ++ gs) := by
  induction xs generalizing fs with
  | nil =>
    rw [readOperands, Option.some.injEq] at hxs
    subst hxs
    exact hys
  | cons x xs ih =>
    rw [readOperands] at hxs
    split at hxs
    · rename_i f hf
      obtain ⟨fs', hfs, rfl⟩ := Option.map_eq_some_iff.mp hxs
      exact readOperands_cons M x (xs ++ ys) f (fs' ++ gs) hf (ih fs' hfs)
    · cases hxs

/-! ## Flattening -/

section Flatten

variable (op : String) (fold : List Truth → Truth) (bin : Truth → Truth → Truth)
  (hread : ∀ xs, readNode M (.arr (.str op :: xs)) =
    (readOperands M xs).map fun fs => some fun row => fold (fs.map (· row)))
  (hsingle : ∀ t, fold [t] = t)
  (happend : ∀ ts us, fold (ts ++ us) = bin (fold ts) (fold us))

include hread hsingle in
/-- An operand, or the operands that it is flattened to, have the same value. -/
theorem readOperands_operandsOf (x : Json) (f : Row → Truth) (hx : readNode M x = some (some f)) :
    ∃ fs, readOperands M (operandsOf op x) = some fs ∧ ∀ row, fold (fs.map (· row)) = f row := by
  have hself : readOperands M [x] = some [f] := 
    readOperands_cons M x [] f [] hx (by rw [readOperands])
  have hsame : ∀ row, fold ([f].map (· row)) = f row := fun row => hsingle (f row)
  unfold operandsOf
  split
  · rename_i s xs
    by_cases hs : s = op
    · subst hs
      rw [hread] at hx
      obtain ⟨fs, hfs, hf⟩ := Option.map_eq_some_iff.mp hx
      rw [if_pos rfl]
      refine ⟨fs, hfs, fun row => ?_⟩
      exact congrFun (Option.some.inj hf) row
    · rw [if_neg hs]
      exact ⟨[f], hself, hsame⟩
  · exact ⟨[f], hself, hsame⟩

include hread hsingle happend in
/-- Flattening the operands of a clause keeps its value. -/
theorem readNode_flattenOperands (x y : Json) (f g : Row → Truth)
    (hx : readNode M x = some (some f)) (hy : readNode M y = some (some g)) :
    readNode M (flattenOperands op [x, y]) = some (some fun row => bin (f row) (g row)) := by
  obtain ⟨fs, hfs, hf⟩ := readOperands_operandsOf M op fold hread hsingle x f hx
  obtain ⟨gs, hgs, hg⟩ := readOperands_operandsOf M op fold hread hsingle y g hy
  have hall : readOperands M ([x, y].flatMap (operandsOf op)) = some (fs ++ gs) := by
    rw [List.flatMap_cons, List.flatMap_cons, List.flatMap_nil, List.append_nil]
    exact readOperands_append M _ _ fs gs hfs hgs
  rw [flattenOperands, hread, hall, Option.map_some]
  congr 2
  funext row
  rw [List.map_append, happend, hf, hg]

end Flatten

end Nodes

/-! ## Filters and clauses -/

def filterOperators : List String := ["and", "or", "not", "in", "subquery"] ++ comparisonOperators

/-- The AST of an expression. -/
def IsFilter (x : Json) : Prop := ∃ op xs, x = .arr (.str op :: xs) ∧ op ∈ filterOperators

theorem isFilter_arr (op : String) (xs : List Json) (hop : op ∈ filterOperators) :
    IsFilter (.arr (.str op :: xs)) := ⟨op, xs, rfl, hop⟩

theorem tag_of_isFilter (x : Json) (hx : IsFilter x) : ∃ op ∈ filterOperators, tag x = some op := by
  obtain ⟨op, xs, rfl, hop⟩ := hx
  exact ⟨op, hop, rfl⟩

theorem isFilter_transformCondexpression (json : JsonDecoder) (c : Condexpression) (x : Json)
    (hx : transformCondexpression json c = .ok x) : IsFilter x := by
  cases c with
  | null f isNull =>
    rw [transformCondexpression] at hx
    cases hx
    exact isFilter_arr "null?" _ (by decide)
  | inequality f op value =>
    obtain ⟨v, hv, h⟩ := (QueryExpansion.bind_eq_ok _ _ _).mp hx
    cases h
    cases op <;> exact isFilter_arr _ _ (by decide)
  | inLiterals columns first rest =>
    obtain ⟨cols, hcols, h⟩ := (QueryExpansion.bind_eq_ok _ _ _).mp hx
    obtain ⟨xs, hxs, h⟩ := (QueryExpansion.bind_eq_ok _ _ _).mp h
    cases h
    exact isFilter_arr "in" _ (by decide)
  | regexp f value | regexparray f first rest | isEqual f value | notEqual f value
  | notRegexp f value =>
    obtain ⟨v, hv, h⟩ := (QueryExpansion.bind_eq_ok _ _ _).mp hx
    cases h
    exact isFilter_arr _ _ (by decide)

theorem isFilter_transformSubquery (entity : String) (xs : List Json) (x : Json)
    (hx : transformSubquery entity xs = .ok x) : IsFilter x := by
  unfold transformSubquery at hx
  split at hx
  · cases hx
    exact isFilter_arr "subquery" _ (by decide)
  · cases hx
    exact isFilter_arr "subquery" _ (by decide)
  · cases hx

section IsFilter

variable (json : JsonDecoder)

mutual

theorem isFilter_transformExprOr : (e : ExprOr) → (x : Json) →
    transformExprOr json e = .ok x → IsFilter x
  | .single a, x, hx => isFilter_transformExprAnd a x (by rwa [transformExprOr] at hx)
  | .or a b, x, hx => by
    rw [transformExprOr] at hx
    obtain ⟨y, hy, h⟩ := (QueryExpansion.bind_eq_ok _ _ _).mp hx
    obtain ⟨z, hz, h⟩ := (QueryExpansion.bind_eq_ok _ _ _).mp h
    cases h
    exact isFilter_arr "or" _ (by decide)

theorem isFilter_transformExprAnd : (e : ExprAnd) → (x : Json) →
    transformExprAnd json e = .ok x → IsFilter x
  | .single a, x, hx => isFilter_transformExprNot a x (by rwa [transformExprAnd] at hx)
  | .and a b, x, hx => by
    rw [transformExprAnd] at hx
    obtain ⟨y, hy, h⟩ := (QueryExpansion.bind_eq_ok _ _ _).mp hx
    obtain ⟨z, hz, h⟩ := (QueryExpansion.bind_eq_ok _ _ _).mp h
    cases h
    exact isFilter_arr "and" _ (by decide)

theorem isFilter_transformExprNot : (e : ExprNot) → (x : Json) →
    transformExprNot json e = .ok x → IsFilter x
  | .not a, x, hx => by
    rw [transformExprNot] at hx
    obtain ⟨y, hy, h⟩ := (QueryExpansion.bind_eq_ok _ _ _).mp hx
    cases h
    exact isFilter_arr "not" _ (by decide)
  | .parens e, x, hx => isFilter_transformExprOr e x (by rwa [transformExprNot] at hx)
  | .cond c, x, hx =>
    isFilter_transformCondexpression json c x (by rwa [transformExprNot] at hx)
  | .inQuery columns q, x, hx => by
    rw [transformExprNot] at hx
    obtain ⟨cols, hcols, h⟩ := (QueryExpansion.bind_eq_ok _ _ _).mp hx
    obtain ⟨y, hy, h⟩ := (QueryExpansion.bind_eq_ok _ _ _).mp h
    cases h
    exact isFilter_arr "in" _ (by decide)
  | .subquery entity w, x, hx => by
    rw [transformExprNot] at hx
    obtain ⟨xs, hxs, h⟩ := (QueryExpansion.bind_eq_ok _ _ _).mp hx
    exact isFilter_transformSubquery entity xs x h

end

end IsFilter

/-- The AST of a paging clause whose integer is a `long`. -/
def Paging.clause : Paging → Json
  | .limit n => .arr [.str "limit", .int n.value]
  | .offset n => .arr [.str "offset", .int n.value]
  | .orderby first rest =>
    .arr [.str "order_by", .arr ((first :: rest).map transformOrderParam)]

theorem transformPaging_eq (p : Paging) (x : Json) (hx : transformPaging p = .ok x) :
    x = p.clause := by
  cases p with
  | limit n | offset n =>
    obtain ⟨v, hv, h⟩ := (QueryExpansion.bind_eq_ok _ _ _).mp hx
    cases h
    unfold transformInteger at hv
    split at hv
    · cases hv
      rfl
    · cases hv
  | orderby first rest =>
    cases hx
    rfl

theorem mapM_transformPaging_eq (ps : List Paging) (xs : List Json)
    (hxs : ps.mapM transformPaging = .ok xs) : xs = ps.map Paging.clause := by
  induction ps generalizing xs with
  | nil =>
    cases hxs
    rfl
  | cons p ps ih =>
    rw [List.mapM_cons] at hxs
    obtain ⟨y, hy, h⟩ := (QueryExpansion.bind_eq_ok _ _ _).mp hxs
    obtain ⟨ys, hys, h⟩ := (QueryExpansion.bind_eq_ok _ _ _).mp h
    cases h
    rw [transformPaging_eq p y hy, ih ys hys, List.map_cons]

@[simp] theorem pagingClause_clause (p : Paging) : pagingClause p.clause = true := by
  cases p <;> rfl

/-! ## Paging -/

/-- No kind of paging clause is repeated. -/
structure Unrepeated (ps : List Paging) : Prop where
  limit : (ps.filterMap Paging.limit?).length ≤ 1
  offset : (ps.filterMap Paging.offset?).length ≤ 1
  orderBy : (ps.filterMap Paging.orderBy?).length ≤ 1

section GetClause

variable (kind : String) (arg? : Paging → Option Json)

/-- The clauses of a kind are those with an argument of that kind. -/
def ReadsClauses : Prop :=
  ∀ p : Paging, (arg? p = none ∧ tag p.clause ≠ some kind) ∨
    ∃ a, arg? p = some a ∧ p.clause = .arr [.str kind, a] ∧ truthy a = true

theorem filter_clause (h : ReadsClauses kind arg?) (ps : List Paging) :
    (ps.map Paging.clause).filter (tag · = some kind) =
      (ps.filterMap arg?).map fun a => .arr [.str kind, a] := by
  induction ps with
  | nil => rfl
  | cons p ps ih =>
    rw [List.map_cons]
    obtain ⟨hnone, htag⟩ | ⟨a, ha, hp, _⟩ := h p
    · rw [List.filter_cons_of_neg (by simpa using htag), List.filterMap_cons_none hnone, ih]
    · rw [List.filter_cons_of_pos (by simp [hp, tag]), List.filterMap_cons_some ha, ih, List.map_cons,
        hp]

theorem getClause_clauses (h : ReadsClauses kind arg?) (ps : List Paging) (x : Option Json) :
    getClause kind (ps.map Paging.clause) = some x ↔ ps.filterMap arg? = x.toList := by
  have htruthy : ∀ a ∈ ps.filterMap arg?, truthy a = true := by
    intro a ha
    obtain ⟨p, _, hp⟩ := List.mem_filterMap.mp ha
    obtain ⟨hnone, _⟩ | ⟨b, hb, _, hbt⟩ := h p
    · rw [hnone] at hp
      cases hp
    · rw [hb] at hp
      cases hp
      exact hbt
  rw [getClause, filter_clause kind arg? h]
  cases hargs : ps.filterMap arg? with
  | nil => cases x <;> simp
  | cons a as =>
    cases as with
    | nil =>
      have ha : truthy a = true := htruthy a (by rw [hargs]; exact List.mem_cons_self)
      cases x with
      | none => simp [clauseArg, ha]
      | some b => simp [clauseArg, ha]
    | cons b bs => cases x <;> simp

end GetClause

theorem readsClauses_limit : ReadsClauses "limit" Paging.limit? := by
  intro p
  cases p with
  | limit n => exact .inr ⟨_, rfl, rfl, rfl⟩
  | offset n => exact .inl ⟨rfl, by simp [Paging.clause, tag]⟩
  | orderby first rest => exact .inl ⟨rfl, by simp [Paging.clause, tag]⟩

theorem readsClauses_offset : ReadsClauses "offset" Paging.offset? := by
  intro p
  cases p with
  | limit n => exact .inl ⟨rfl, by simp [Paging.clause, tag]⟩
  | offset n => exact .inr ⟨_, rfl, rfl, rfl⟩
  | orderby first rest => exact .inl ⟨rfl, by simp [Paging.clause, tag]⟩

theorem readsClauses_orderBy : ReadsClauses "order_by" Paging.orderBy? := by
  intro p
  cases p with
  | limit n => exact .inl ⟨rfl, by simp [Paging.clause, tag]⟩
  | offset n => exact .inl ⟨rfl, by simp [Paging.clause, tag]⟩
  | orderby first rest => exact .inr ⟨_, rfl, rfl, rfl⟩

/-- The paging map has all the paging clauses. -/
theorem createPagingMap_clauses (ps : List Paging) (m : PagingMap) :
    createPagingMap (ps.map Paging.clause) = some m ↔
      ps.filterMap Paging.limit? = m.limit.toList ∧
        ps.filterMap Paging.offset? = m.offset.toList ∧
          ps.filterMap Paging.orderBy? = m.orderBy.toList := by
  rw [← getClause_clauses "limit" _ readsClauses_limit, ← getClause_clauses "offset" _ readsClauses_offset,
    ← getClause_clauses "order_by" _ readsClauses_orderBy]
  obtain ⟨limit, offset, orderBy⟩ := m
  simp only [createPagingMap, Option.bind_eq_bind, Option.bind_eq_some_iff]
  constructor
  · rintro ⟨l, hl, o, ho, b, hb, h⟩
    cases h
    exact ⟨hl, ho, hb⟩
  · rintro ⟨hl, ho, hb⟩
    exact ⟨limit, hl, offset, ho, orderBy, hb, rfl⟩

theorem exists_toList (xs : List Json) (h : xs.length ≤ 1) : ∃ x : Option Json, xs = x.toList := by
  match xs, h with
  | [], _ => exact ⟨none, rfl⟩
  | [a], _ => exact ⟨some a, rfl⟩

theorem length_toList_le (x : Option Json) : x.toList.length ≤ 1 := by cases x <;> simp

theorem createPagingMap_of_unrepeated (ps : List Paging) (h : Unrepeated ps) :
    ∃ m, createPagingMap (ps.map Paging.clause) = some m := by
  obtain ⟨l, hl⟩ := exists_toList _ h.limit
  obtain ⟨o, ho⟩ := exists_toList _ h.offset
  obtain ⟨b, hb⟩ := exists_toList _ h.orderBy
  exact ⟨⟨l, o, b⟩, (createPagingMap_clauses ps _).mpr ⟨hl, ho, hb⟩⟩

end OpenVoxDB.Pql
