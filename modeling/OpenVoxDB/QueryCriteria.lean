import OpenVoxDB.Json

/-!
# Restricting a query

`add-criteria` adds a criterion to the filter of a query, wherever the query
keeps it: behind an `extract`, behind a `from`, or at the top. `readQuery` is
how the engine reads a query, which lowers the case of its operators before
it looks at them.
-/

namespace OpenVoxDB.QueryCriteria

/-- `paging-clauses?` for one clause. -/
def pagingClause : Json → Bool
  | .arr (.str op :: _) => ["order_by", "limit", "offset"].contains op
  | _ => false

def pagingClauses (clauses : List Json) : Bool := clauses.all pagingClause

/-- `(first clause)`, of a clause that is a vector. -/
def first : Json → Json
  | .arr (x :: _) => x
  | _ => .null

/-- `["and" query crit]` -/
def conj (query crit : Json) : Json := .arr [.str "and", query, crit]

/-- The branches of `add-criteria` for a criterion that is there. -/
def addCriterion (crit : Json) : Json → Json
  | .arr [.str "extract", columns, .null] => .arr [.str "extract", columns, crit]
  | .arr [.str "extract", columns] => .arr [.str "extract", columns, crit]
  | .arr [.str "extract", columns, subquery] =>
    if first subquery = .str "group_by" then .arr [.str "extract", columns, crit, subquery]
    else .arr [.str "extract", columns, conj subquery crit]
  | .arr [.str "extract", columns, subquery, clauses] =>
    .arr [.str "extract", columns, addCriterion crit subquery, clauses]
  | .arr [.str "from", entity] => .arr [.str "from", entity, crit]
  | .arr (.str "from" :: entity :: subquery :: clauses) =>
    if pagingClauses (subquery :: clauses) then
      .arr (.str "from" :: entity :: crit :: subquery :: clauses)
    else if pagingClauses clauses then
      .arr (.str "from" :: entity :: addCriterion crit subquery :: clauses)
    else conj (.arr (.str "from" :: entity :: subquery :: clauses)) crit
  | query => if query.truthy then conj query crit else crit

def addCriteria (crit query : Json) : Json :=
  if crit.truthy then addCriterion crit query else query

/-- `wrap-with-from`, which every REST endpoint applies to the restricted query. -/
def wrapWithFrom (entity query : Json) : Json :=
  if query.truthy then .arr [.str "from", entity, query] else .arr [.str "from", entity]

/-- `str/lower-case`; no letter outside ASCII lowers to a letter of an operator here. -/
def lower (s : String) : String := String.ofList (s.toList.map Char.toLower)

/-- `simple-binary-operators` and the operators that combine or relate clauses. -/
def filterOperators : List String :=
  ["=", ">", "<", ">=", "<=", "~", "~>", "and", "or", "not", "in", "subquery", "null?"]

/-- A clause that can stand as a filter. -/
def isFilter : Json → Bool
  | .arr (.str op :: _) => filterOperators.contains (lower op)
  | _ => false

def isGroupBy : Json → Bool
  | .arr (.str op :: _) => lower op = "group_by"
  | _ => false

/-- What a query asks for: the entities of its `from` forms, outermost first, each with
its paging clauses, the columns of its `extract`, its filter and its grouping. -/
structure Reading where
  entities : List (Json × List Json)
  columns : Option Json
  filter : Option Json
  grouping : Option Json
  deriving DecidableEq

/-- An `extract` by its arguments after the columns. -/
def readExtract (columns : Json) : List Json → Option Reading
  | [] => some ⟨[], some columns, none, none⟩
  | [.null] => some ⟨[], some columns, none, none⟩
  | [clause] =>
    if isGroupBy clause then some ⟨[], some columns, none, some clause⟩
    else if isFilter clause then some ⟨[], some columns, some clause, none⟩
    else none
  | [.null, clause] =>
    if isGroupBy clause then some ⟨[], some columns, none, some clause⟩ else none
  | [filter, clause] =>
    if isFilter filter ∧ isGroupBy clause then some ⟨[], some columns, some filter, some clause⟩
    else none
  | _ => none

/-- How the engine reads a query whose operators it lowers first; `none` for what is
none of the forms it has. -/
def readQuery : Json → Option Reading
  | .null => some ⟨[], none, none, none⟩
  | .arr [.str op, x] =>
    if lower op = "extract" then readExtract x []
    else if lower op = "from" then some ⟨[(x, [])], none, none, none⟩
    else if isFilter (.arr [.str op, x]) then some ⟨[], none, some (.arr [.str op, x]), none⟩
    else none
  | .arr (.str op :: x :: y :: zs) =>
    if lower op = "extract" then readExtract x (y :: zs)
    else if lower op = "from" then
      if pagingClauses (y :: zs) then some ⟨[(x, y :: zs)], none, none, none⟩
      else if pagingClauses zs then
        (readQuery y).map fun r => { r with entities := (x, zs) :: r.entities }
      else none
    else if isFilter (.arr (.str op :: x :: y :: zs)) then
      some ⟨[], none, some (.arr (.str op :: x :: y :: zs)), none⟩
    else none
  | .arr [.str op] =>
    if isFilter (.arr [.str op]) then some ⟨[], none, some (.arr [.str op]), none⟩ else none
  | _ => none

/-- The same reading with the criterion joined to its filter. -/
def Reading.restrict (r : Reading) (crit : Json) : Reading :=
  { r with filter := some (match r.filter with
    | some filter => conj filter crit
    | none => crit) }

/-- The `extract`, `from` and `group_by` that `add-criteria` looks for on its way to the
filter are written in lower case. -/
def Spelled : Json → Prop
  | .arr [.str op, _] =>
    (lower op = "extract" → op = "extract") ∧ (lower op = "from" → op = "from")
  | .arr (.str op :: _ :: y :: zs) =>
    (lower op = "extract" → op = "extract" ∧
      (zs = [] → isGroupBy y = true → first y = .str "group_by")) ∧
    (lower op = "from" → op = "from" ∧ (pagingClauses (y :: zs) = false → Spelled y))
  | _ => True

theorem truthy_of_isFilter (q : Json) (h : isFilter q = true) : q.truthy = true := by
  unfold isFilter at h
  split at h
  · rfl
  · cases h

theorem isFilter_conj (query crit : Json) : isFilter (conj query crit) = true := by
  show filterOperators.contains (lower "and") = true
  decide

theorem lower_of_isFilter (op : String) (args : List Json)
    (h : isFilter (.arr (.str op :: args)) = true) :
    lower op ≠ "extract" ∧ lower op ≠ "from" ∧ lower op ≠ "group_by" := by
  have hmem : lower op ∈ filterOperators := by simpa [isFilter] using h
  refine ⟨?_, ?_, ?_⟩ <;> rintro he <;> rw [he] at hmem <;> exact absurd hmem (by decide)

theorem isGroupBy_of_isFilter (q : Json) (h : isFilter q = true) : isGroupBy q = false := by
  match q, h with
  | .arr (.str op :: args), h =>
    show decide (lower op = "group_by") = false
    exact decide_eq_false (lower_of_isFilter op args h).2.2

theorem pagingClause_of_isFilter (q : Json) (h : isFilter q = true) : pagingClause q = false := by
  match q, h with
  | .arr (.str op :: args), h =>
    have hmem : lower op ∈ filterOperators := by simpa [isFilter] using h
    have hno : ∀ clause ∈ ["order_by", "limit", "offset"], lower clause ∉ filterOperators := by
      decide
    show ["order_by", "limit", "offset"].contains op = false
    cases hc : ["order_by", "limit", "offset"].contains op with
    | false => rfl
    | true => exact absurd hmem (hno op (by simpa using hc))

/-- A filter reads as itself. -/
theorem readQuery_of_isFilter (q : Json) (h : isFilter q = true) :
    readQuery q = some ⟨[], none, some q, none⟩ := by
  match q, h with
  | .arr (.str op :: args), h =>
    obtain ⟨hextract, hfrom, -⟩ := lower_of_isFilter op args h
    match args, h with
    | [], h => simp only [readQuery, h, if_true]
    | [x], h => simp only [readQuery, hextract, hfrom, h, if_true, if_false]
    | x :: y :: zs, h => simp only [readQuery, hextract, hfrom, h, if_true, if_false]

/-- Any operator but the two that `add-criteria` looks for puts the query beside the
criterion. -/
theorem addCriterion_of_ne (crit : Json) (op : String) (args : List Json)
    (hextract : op ≠ "extract") (hfrom : op ≠ "from") :
    addCriterion crit (.arr (.str op :: args)) = conj (.arr (.str op :: args)) crit := by
  unfold addCriterion
  split <;> simp_all [Json.truthy]

/-- A filter behind columns, whether or not it stands before a grouping. -/
theorem addCriterion_of_isFilter (crit q : Json) (h : isFilter q = true) :
    addCriterion crit q = conj q crit := by
  match q, h with
  | .arr (.str op :: args), h =>
    obtain ⟨hextract, hfrom, -⟩ := lower_of_isFilter op args h
    refine addCriterion_of_ne crit op args ?_ ?_
    · rintro rfl
      exact hextract (by decide)
    · rintro rfl
      exact hfrom (by decide)

/-- What is put beside a criterion reads as a filter and nothing else. -/
theorem readQuery_conj (query crit : Json) :
    readQuery (conj query crit) = some ⟨[], none, some (conj query crit), none⟩ :=
  readQuery_of_isFilter _ (isFilter_conj query crit)

theorem first_ne_of_isFilter (q : Json) (h : isFilter q = true) : first q ≠ .str "group_by" := by
  match q, h with
  | .arr (.str op :: args), h =>
    intro he
    have hop : op = "group_by" := by simpa [first] using he
    subst hop
    exact (lower_of_isFilter _ args h).2.2 (by decide)

theorem readExtract_filter (columns f : Json) (h : isFilter f = true) :
    readExtract columns [f] = some ⟨[], some columns, some f, none⟩ := by
  have hgroup := isGroupBy_of_isFilter f h
  match f, h with
  | .arr (.str op :: args), h => simp [readExtract, hgroup, h]

theorem readExtract_filter_grouping (columns f clause : Json) (h : isFilter f = true)
    (hg : isGroupBy clause = true) :
    readExtract columns [f, clause] = some ⟨[], some columns, some f, some clause⟩ := by
  match f, h with
  | .arr (.str op :: args), h => simp [readExtract, hg, h]

theorem readExtract_one (columns y : Json) (hnull : y ≠ .null) :
    readExtract columns [y] =
      if isGroupBy y then some ⟨[], some columns, none, some y⟩
      else if isFilter y then some ⟨[], some columns, some y, none⟩
      else none := by
  cases y <;> first | rfl | exact absurd rfl hnull

theorem readExtract_two (columns f clause : Json) (hnull : f ≠ .null) :
    readExtract columns [f, clause] =
      if isFilter f ∧ isGroupBy clause then some ⟨[], some columns, some f, some clause⟩
      else none := by
  cases f <;> first | rfl | exact absurd rfl hnull

theorem addCriterion_one (crit columns y : Json) (hnull : y ≠ .null) :
    addCriterion crit (.arr [.str "extract", columns, y]) =
      if first y = .str "group_by" then .arr [.str "extract", columns, crit, y]
      else .arr [.str "extract", columns, conj y crit] := by
  cases y <;> first | rfl | exact absurd rfl hnull

theorem readQuery_extract (columns : Json) (args : List Json) :
    readQuery (.arr (.str "extract" :: columns :: args)) = readExtract columns args := by
  have hlow : lower "extract" = "extract" := by decide
  cases args <;> simp only [readQuery, hlow, if_true]

/-- One clause behind the columns is a grouping or a filter. -/
theorem readQuery_addCriterion_one (crit columns : Json) (hcrit : isFilter crit = true)
    (y : Json) (hnull : y ≠ .null) (r : Reading) (hr : readExtract columns [y] = some r) :
    readQuery (addCriterion crit (.arr [.str "extract", columns, y])) = some (r.restrict crit) ↔
      (isGroupBy y = true → first y = .str "group_by") := by
  rw [addCriterion_one crit columns y hnull]
  rw [readExtract_one columns y hnull] at hr
  by_cases hgroup : isGroupBy y = true
  · rw [if_pos hgroup] at hr
    cases hr
    by_cases hfirst : first y = .str "group_by"
    · rw [if_pos hfirst, readQuery_extract, readExtract_filter_grouping columns crit y hcrit hgroup]
      exact iff_of_true rfl fun _ => hfirst
    · rw [if_neg hfirst, readQuery_extract, readExtract_filter columns _ (isFilter_conj y crit)]
      apply iff_of_false
      · intro h
        cases Option.some.inj h
      · exact fun h => hfirst (h hgroup)
  · rw [if_neg hgroup] at hr
    by_cases hfilter : isFilter y = true
    · rw [if_pos hfilter] at hr
      cases hr
      rw [if_neg (first_ne_of_isFilter y hfilter), readQuery_extract,
        readExtract_filter columns _ (isFilter_conj y crit)]
      exact iff_of_true rfl fun h => absurd h hgroup
    · rw [if_neg hfilter] at hr
      cases hr

/-- Behind a filter there is a grouping. -/
theorem readQuery_addCriterion_two (crit columns : Json) (hcrit : isFilter crit = true)
    (f clause : Json) (r : Reading) (hr : readExtract columns [f, clause] = some r) :
    readQuery (addCriterion crit (.arr [.str "extract", columns, f, clause])) =
      some (r.restrict crit) := by
  rw [addCriterion, readQuery_extract]
  by_cases hnull : f = .null
  · subst hnull
    rw [readExtract] at hr
    split at hr
    · next hgroup =>
      cases hr
      exact readExtract_filter_grouping columns crit clause hcrit hgroup
    · cases hr
  · rw [readExtract_two columns f clause hnull] at hr
    split at hr
    · next hboth =>
      cases hr
      rw [addCriterion_of_isFilter crit f hboth.1]
      exact readExtract_filter_grouping columns _ clause (isFilter_conj f crit) hboth.2
    · cases hr

/-- Behind a lower-case `extract` the criterion joins the filter, except that a grouping
in other letters is taken for a filter. -/
theorem readQuery_addCriterion_extract (crit columns : Json) (hcrit : isFilter crit = true)
    (args : List Json) (r : Reading) (hr : readExtract columns args = some r) :
    readQuery (addCriterion crit (.arr (.str "extract" :: columns :: args))) =
        some (r.restrict crit) ↔
      ∀ y, args = [y] → isGroupBy y = true → first y = .str "group_by" := by
  have halone := (readQuery_extract columns [crit]).trans (readExtract_filter columns crit hcrit)
  match args, hr with
  | [], hr =>
    cases hr
    exact iff_of_true halone nofun
  | [y], hr =>
    have hone : (∀ z, [y] = [z] → isGroupBy z = true → first z = .str "group_by") ↔
        (isGroupBy y = true → first y = .str "group_by") := by
      constructor
      · exact fun h => h y rfl
      · rintro h z ⟨rfl⟩
        exact h
    rw [hone]
    by_cases hnull : y = .null
    · subst hnull
      cases hr
      exact iff_of_true halone fun h => absurd h (by decide)
    · exact readQuery_addCriterion_one crit columns hcrit y hnull r hr
  | [f, clause], hr =>
    exact iff_of_true (readQuery_addCriterion_two crit columns hcrit f clause r hr) nofun
  | x :: y :: z :: zs, hr => cases x <;> cases hr

theorem readExtract_columns (columns : Json) (args : List Json) (r : Reading)
    (h : readExtract columns args = some r) : r.columns = some columns := by
  unfold readExtract at h
  split at h
  · cases h; rfl
  · cases h; rfl
  · split at h
    · cases h; rfl
    · split at h
      · cases h; rfl
      · cases h
  · split at h
    · cases h; rfl
    · cases h
  · split at h
    · cases h; rfl
    · cases h
  · cases h

/-- A projection or an entity is lost when its operator is not recognized. -/
theorem readQuery_misspelled (crit : Json) (op : String) (args : List Json) (r : Reading)
    (hextract : op ≠ "extract") (hfrom : op ≠ "from")
    (hr : r.columns ≠ none ∨ r.entities ≠ []) :
    readQuery (addCriterion crit (.arr (.str op :: args))) ≠ some (r.restrict crit) := by
  rw [addCriterion_of_ne crit op args hextract hfrom, readQuery_conj]
  intro h
  have hr' := Option.some.inj h
  rcases hr with hcolumns | hentities
  · exact hcolumns (congrArg Reading.columns hr').symm
  · exact hentities (congrArg Reading.entities hr').symm

theorem pagingClause_addCriterion (crit : Json) (hcrit : isFilter crit = true) (query : Json) :
    pagingClause (addCriterion crit query) = false := by
  unfold addCriterion
  split
  · rfl
  · rfl
  · split <;> rfl
  · rfl
  · rfl
  · split
    · rfl
    · split <;> rfl
  · split
    · rfl
    · exact pagingClause_of_isFilter crit hcrit

/-- The criterion joins the filter and everything else stays, exactly when the operators
on the way to the filter are spelled as `add-criteria` matches them. -/
theorem readQuery_addCriterion_iff (crit : Json) (hcrit : isFilter crit = true) (query : Json)
    (r : Reading) (hr : readQuery query = some r) :
    readQuery (addCriterion crit query) = some (r.restrict crit) ↔ Spelled query := by
  have hextract : lower "extract" = "extract" := by decide
  have hfrom : lower "from" = "from" := by decide
  induction query using readQuery.induct generalizing r with
  | case1 =>
    cases hr
    exact iff_of_true (readQuery_of_isFilter crit hcrit) trivial
  | case2 op x h =>
    simp only [readQuery, h, if_true] at hr
    by_cases hop : op = "extract"
    · subst hop
      rw [readQuery_addCriterion_extract crit x hcrit [] r hr]
      exact iff_of_true nofun ⟨fun _ => rfl, fun he => absurd he (by decide)⟩
    · have hopfrom : op ≠ "from" := fun he => absurd (he ▸ h) (by decide)
      refine iff_of_false (readQuery_misspelled crit op [x] r hop hopfrom (.inl ?_)) ?_
      · rw [readExtract_columns x [] r hr]
        exact Option.some_ne_none x
      · exact fun hs => hop (hs.1 h)
  | case3 op x h h' =>
    simp only [readQuery, h', if_true] at hr
    cases hr
    by_cases hop : op = "from"
    · subst hop
      refine iff_of_true ?_ ⟨fun he => absurd he (by decide), fun _ => rfl⟩
      have hpaging : pagingClauses [crit] = false := by
        simp [pagingClauses, pagingClause_of_isFilter crit hcrit]
      show readQuery (.arr [.str "from", x, crit]) = _
      have hnil : pagingClauses [] = true := rfl
      simp [readQuery, hfrom, hpaging, hnil, readQuery_of_isFilter crit hcrit, Reading.restrict]
    · have hopextract : op ≠ "extract" := fun he => absurd (he ▸ h') (by decide)
      refine iff_of_false (readQuery_misspelled crit op [x] _ hopextract hop (.inr ?_)) ?_
      · simp
      · exact fun hs => hop (hs.2 h')
  | case4 op x h h' hf =>
    rw [readQuery_of_isFilter _ hf] at hr
    cases hr
    rw [addCriterion_of_isFilter crit _ hf]
    exact iff_of_true (readQuery_conj _ _) ⟨fun he => absurd he h, fun he => absurd he h'⟩
  | case5 op x h h' hf => simp only [readQuery, h, h', hf, if_false] at hr; cases hr
  | case6 op x y zs h =>
    simp only [readQuery, h, if_true] at hr
    by_cases hop : op = "extract"
    · subst hop
      rw [readQuery_addCriterion_extract crit x hcrit (y :: zs) r hr]
      constructor
      · intro hgroup
        refine ⟨fun _ => ⟨rfl, fun hzs => ?_⟩, fun he => absurd he (by decide)⟩
        subst hzs
        exact hgroup y rfl
      · rintro ⟨hs, -⟩ z hz
        cases hz
        exact (hs hextract).2 rfl
    · have hopfrom : op ≠ "from" := fun he => absurd (he ▸ h) (by decide)
      refine iff_of_false (readQuery_misspelled crit op _ r hop hopfrom (.inl ?_)) ?_
      · rw [readExtract_columns x (y :: zs) r hr]
        exact Option.some_ne_none x
      · exact fun hs => hop (hs.1 h).1
  | case7 op x y zs h h' hp =>
    simp only [readQuery, h', hp, if_true] at hr
    cases hr
    by_cases hop : op = "from"
    · subst hop
      refine iff_of_true ?_ ⟨fun he => absurd he (by decide),
        fun _ => ⟨rfl, fun hn => by rw [hp] at hn; cases hn⟩⟩
      have hpaging : pagingClauses (crit :: y :: zs) = false := by
        simp [pagingClauses, pagingClause_of_isFilter crit hcrit]
      rw [addCriterion, if_pos hp]
      simp [readQuery, hfrom, hpaging, hp, readQuery_of_isFilter crit hcrit, Reading.restrict]
    · have hopextract : op ≠ "extract" := fun he => absurd (he ▸ h') (by decide)
      refine iff_of_false (readQuery_misspelled crit op _ _ hopextract hop (.inr ?_)) ?_
      · simp
      · exact fun hs => hop (hs.2 h').1
  | case8 op x y zs h h' hp hpzs ih =>
    simp only [readQuery, h', hp, hpzs, if_true] at hr
    obtain ⟨ry, hry, rfl⟩ := Option.map_eq_some_iff.mp hr
    by_cases hop : op = "from"
    · subst hop
      have hadd : addCriterion crit (.arr (.str "from" :: x :: y :: zs)) =
          .arr (.str "from" :: x :: addCriterion crit y :: zs) := by
        rw [addCriterion, if_neg hp, if_pos hpzs]
      have hpaging : pagingClauses (addCriterion crit y :: zs) = false := by
        simp [pagingClauses, pagingClause_addCriterion crit hcrit y]
      have hread : readQuery (.arr (.str "from" :: x :: addCriterion crit y :: zs)) =
          (readQuery (addCriterion crit y)).map fun r =>
            { r with entities := (x, zs) :: r.entities } := by
        have hno : ¬ lower "from" = "extract" := by decide
        rw [readQuery, if_neg hno, if_pos hfrom, if_neg (by simp [hpaging]), if_pos hpzs]
      rw [hadd, hread]
      constructor
      · intro hmap
        refine ⟨fun he => absurd he (by decide), fun _ => ⟨rfl, fun _ => ?_⟩⟩
        refine (ih ry hry).mp ?_
        obtain ⟨r', hr', hsame⟩ := Option.map_eq_some_iff.mp hmap
        rw [hr']
        cases r'
        cases ry
        simpa [Reading.restrict] using hsame
      · intro hs
        have hy := (ih ry hry).mpr ((hs.2 hfrom).2 (by simpa using hp))
        rw [hy]
        rfl
    · have hopextract : op ≠ "extract" := fun he => absurd (he ▸ h') (by decide)
      refine iff_of_false (readQuery_misspelled crit op _ _ hopextract hop (.inr ?_)) ?_
      · simp
      · exact fun hs => hop (hs.2 h').1
  | case9 op x y zs h h' hp hpzs =>
    simp only [readQuery, h', hp, hpzs, if_true] at hr
    cases hr
  | case10 op x y zs h h' hf =>
    rw [readQuery_of_isFilter _ hf] at hr
    cases hr
    rw [addCriterion_of_isFilter crit _ hf]
    exact iff_of_true (readQuery_conj _ _) ⟨fun he => absurd he h, fun he => absurd he h'⟩
  | case11 op x y zs h h' hf => simp only [readQuery, h, h', hf, if_false] at hr; cases hr
  | case12 op hf =>
    rw [readQuery_of_isFilter _ hf] at hr
    cases hr
    rw [addCriterion_of_isFilter crit _ hf]
    exact iff_of_true (readQuery_conj _ _) trivial
  | case13 op hf => simp only [readQuery, hf] at hr; cases hr
  | case14 q h1 h2 h3 h4 =>
    rw [readQuery] at hr
    · cases hr
    all_goals assumption

/-- A criterion: a clause that can stand as a filter. -/
structure Criterion where
  clause : Json
  isFilter_clause : isFilter clause = true

/-- `["=" field value]`, the criterion of every `restrict-query-to-*` function. -/
def equals (field : String) (value : Json) : Criterion where
  clause := .arr [.str "=", .str field, value]
  isFilter_clause := by
    show filterOperators.contains (lower "=") = true
    decide

/-- `restrict-query` on the query of a request. -/
def restrictQuery (restriction : Criterion) (query : Json) : Json :=
  addCriteria restriction.clause query

/-- Restriction is exact on the queries whose `extract`, `from` and `group_by` on the way
to the filter are in lower case, and on no other. -/
theorem restrictQuery_exact_iff (restriction : Criterion) (query : Json) (r : Reading)
    (hr : readQuery query = some r) :
    readQuery (restrictQuery restriction query) = some (r.restrict restriction.clause) ↔
      Spelled query := by
  rw [restrictQuery, addCriteria, if_pos (truthy_of_isFilter _ restriction.isFilter_clause)]
  exact readQuery_addCriterion_iff _ restriction.isFilter_clause query r hr

/-- An extract in capitals: its restriction asks for no columns and filters on the
whole extract. -/
theorem restrictQuery_not_exact :
    (readQuery (.arr [.str "EXTRACT", .str "certname",
        .arr [.str "=", .str "certname", .str "a"]])).map
          (·.restrict (equals "node_state" (.str "active")).clause) ≠
      readQuery (restrictQuery (equals "node_state" (.str "active"))
        (.arr [.str "EXTRACT", .str "certname",
          .arr [.str "=", .str "certname", .str "a"]])) := by
  decide

theorem restrictQuery_exact_iff_from :
    readQuery (restrictQuery (equals "certname" (.str "a"))
        (.arr [.str "from", .str "nodes", .arr [.str "limit", .int 1]])) =
        some (Reading.restrict ⟨[(.str "nodes", [.arr [.str "limit", .int 1]])], none, none, none⟩
          (equals "certname" (.str "a")).clause) ↔
      Spelled (.arr [.str "from", .str "nodes", .arr [.str "limit", .int 1]]) :=
  restrictQuery_exact_iff (equals "certname" (.str "a")) _ _ (by decide)

/-- The rows a reading ranges over, where `holds` says which rows a filter admits. -/
def Reading.Ranges {Row : Type} (r : Reading) (holds : Json → Row → Prop) (row : Row) : Prop :=
  ∀ filter, r.filter = some filter → holds filter row

/-- An exact restriction ranges over the rows that satisfy the criterion too. -/
theorem ranges_restrict {Row : Type} (holds : Json → Row → Prop)
    (hand : ∀ a b row, holds (conj a b) row ↔ holds a row ∧ holds b row) (r : Reading)
    (crit : Json) (row : Row) :
    (r.restrict crit).Ranges holds row ↔ r.Ranges holds row ∧ holds crit row := by
  unfold Reading.Ranges Reading.restrict
  cases r.filter with
  | none => simp
  | some filter => simp [hand]

end OpenVoxDB.QueryCriteria
