import Mathlib
import OpenVoxDB.PqlMeaning

/-!
# Options of a query

`user-query->engine-query` of `query_eng.clj`, and the choice `compile-query` of
`query_eng/engine.clj` makes from the options: a request parameter comes before a paging clause of
the query, which comes before a default. Keywords are strings.
-/

namespace OpenVoxDB.EngineOptions

open Pql (getClause createPagingMap pagingClause PagingMap)

/-- The value of an option. `ordering` is a lazy sequence, where `none` is an element that throws
when it is read. -/
inductive Value where
  | json (v : Json)
  | ordering (terms : List (Option (List Json)))
  deriving DecidableEq

def Value.null : Value := .json .null
def Value.false : Value := .json (.bool Bool.false)

def Value.truthy : Value → Bool
  | .json v => Pql.truthy v
  | .ordering _ => true

/-- A map, where `none` is an absent key. -/
abbrev Options := String → Option Value

def Options.empty : Options := fun _ => none

def Options.put (m : Options) (k : String) (v : Value) : Options :=
  fun j => if j = k then some v else m j

/-- `merge`: the later map wins. -/
def Options.merge (m later : Options) : Options := fun k => (later k).or (m k)

def Options.dissoc (m : Options) (k : String) : Options := fun j => if j = k then none else m j

@[simp] theorem Options.empty_apply (k : String) : Options.empty k = none := rfl

@[simp] theorem Options.put_same (m : Options) (k : String) (v : Value) :
    m.put k v k = some v := by simp [put]

@[simp] theorem Options.put_other (m : Options) (k j : String) (v : Value) (h : j ≠ k) :
    m.put k v j = m j := by simp [put, h]

@[simp] theorem Options.merge_apply (m later : Options) (k : String) :
    m.merge later k = (later k).or (m k) := rfl

@[simp] theorem Options.dissoc_other (m : Options) (k j : String) (h : j ≠ k) :
    m.dissoc k j = m j := by simp [dissoc, h]

/-- `strip-nil-values`, whose `(filter val m)` keeps the truthy values only. -/
def stripNilValues (m : Options) : Options := fun k => (m k).filter Value.truthy

/-! ## The paging clauses of a query -/

/-- Whether `first` takes the value. -/
def seqable : Json → Bool
  | .arr _ | .obj _ | .str _ | .null => true
  | _ => false

structure QueryContext where
  entity : String
  remainingQuery : Json
  pagingClauses : Option PagingMap

def underscoresToDashes (s : String) : String := s.map fun c => if c = '_' then '-' else c

/-- `create-paging-map`, of clauses that need not be vectors. -/
def readClauses (clauses : List Json) : Option PagingMap :=
  if clauses.all seqable then createPagingMap clauses else none

/-- `parse-query-context`, where `none` is an exception and `pagingClauses` is nil for a query
without clauses. -/
def parseQueryContext : Json → Option QueryContext
  | .arr (.str "from" :: .str entity :: remaining) =>
    let entity := underscoresToDashes entity
    match remaining with
    | [] => some ⟨entity, .arr [], none⟩
    | c :: clauses =>
      if pagingClause c then
        (readClauses (c :: clauses)).map fun paging => ⟨entity, .arr [], some paging⟩
      else
        match c, clauses with
        | .arr _, [] => some ⟨entity, c, none⟩
        | .arr _, clauses => (readClauses clauses).map fun paging => ⟨entity, c, some paging⟩
        | _, _ => none
  | _ => none

/-- `keyword`, which is nil for anything but a string. -/
def keyword : Json → Json
  | .str s => .str s
  | _ => .null

def direction : Json → Json
  | .str "asc" => .str "ascending"
  | .str "desc" => .str "descending"
  | _ => .null

/-- `process-order-by` and then `munge-query-ordering`, of one clause: `update` at index 1 appends
to a vector of one element, and throws for an empty one. -/
def orderTerm : Json → Option (List Json)
  | .arr xs =>
    match xs.map keyword with
    | [] => none
    | [field] => some [field, .null]
    | field :: order :: rest => some (field :: direction order :: rest)
  | clause => some [keyword clause, .str "ascending"]

/-- `process-order-by` and then `munge-query-ordering`: `for` takes an array, an object as its
entries and a string as its characters. -/
def orderTerms : Option Json → List (Option (List Json))
  | none => []
  | some (.arr clauses) => clauses.map orderTerm
  | some (.obj fields) => fields.map fun entry => orderTerm (.arr [.str entry.1, entry.2])
  | some (.str s) => s.toList.map fun _ => orderTerm .null
  | some _ => [none]

/-- The paging clauses under the names of the request parameters. -/
def renameKeys (paging : PagingMap) : Options :=
  ((Options.empty.put "limit" (.json (paging.limit.getD .null))).put
    "offset" (.json (paging.offset.getD .null))).put
      "order_by" (.ordering (orderTerms paging.orderBy))

def pagingOptions : Option PagingMap → Options
  | none => Options.empty
  | some paging => stripNilValues (renameKeys paging)

/-! ## The options of the engine -/

structure EngineQuery where
  query : Option Value
  remainingQuery : Json
  entity : String
  queryOptions : Options

def unpaged : Options :=
  ((Options.empty.put "limit" .null).put "offset" .null).put "order_by" .null

def queryContext (queryMap : Options) : Option QueryContext :=
  match queryMap "query" with
  | some (.json query) => parseQueryContext query
  | _ => none

/-- `user-query->engine-query`, where `none` is an exception. -/
def userQueryToEngineQuery (queryMap options : Options) : Option EngineQuery :=
  (queryContext queryMap).map fun context =>
    let queryOptions := ((unpaged.merge options).merge (pagingOptions context.pagingClauses)).merge
      (stripNilValues (queryMap.dissoc "query"))
    let packages := (queryOptions "include_package_inventory").any Value.truthy
    { query := queryMap "query"
      remainingQuery := context.remainingQuery
      entity := if context.entity = "factsets" ∧ packages then "factsets-with-packages"
        else context.entity
      queryOptions := queryOptions }

/-- The environment variable `PDB_QUERY_OPTIMIZE_DROP_UNUSED_JOINS`. -/
inductive JoinDropping where
  | always
  | byDefault
  | byRequest
  deriving DecidableEq

def JoinDropping.ofEnv : Option String → Option JoinDropping
  | some "always" => some .always
  | some "by-default" | some "" | none => some .byDefault
  | some "by-request" => some .byRequest
  | some _ => none

def JoinDropping.enabledByDefault : JoinDropping → Bool
  | .always | .byDefault => true
  | .byRequest => false

/-- Whether `compile-query` drops the unused joins of the plan. -/
def dropsUnusedJoins (setting : JoinDropping) (options : Options) : Bool :=
  setting = .always ||
    match options "optimize_drop_unused_joins" with
    | some v => v.truthy
    | none => setting.enabledByDefault

/-- `optimize-joins` of `compile-query`. -/
def optimizeJoins {Plan : Type} (setting : JoinDropping) (dropAllUnusedJoins : Plan → Plan)
    (options : Options) : Plan → Plan :=
  if dropsUnusedJoins setting options then dropAllUnusedJoins else id

theorem optimizeJoins_eq_id {Plan : Type} (setting : JoinDropping)
    (dropAllUnusedJoins : Plan → Plan) (options : Options)
    (h : dropsUnusedJoins setting options = false) (plan : Plan) :
    optimizeJoins setting dropAllUnusedJoins options plan = plan := by
  simp [optimizeJoins, h]

/-! ## Precedence -/

/-- The value a request gives an option: nil is no value. -/
def requested (queryMap : Options) (k : String) : Option Value :=
  (queryMap k).filter (· ≠ .null)

/-- The value the paging clauses of the query give an option. -/
def inQuery (paging : PagingMap) (k : String) : Option Value :=
  if k = "limit" then paging.limit.map .json
  else if k = "offset" then paging.offset.map .json
  else if k = "order_by" then paging.orderBy.map fun v => .ordering (orderTerms (some v))
  else none

def inQuery? (paging : Option PagingMap) (k : String) : Option Value :=
  paging.bind fun p => inQuery p k

/-- The option without the request. -/
def fallback (paging : Option PagingMap) (options : Options) (k : String) : Option Value :=
  (inQuery? paging k).or (unpaged.merge options k)

/-- The option by precedence. -/
def precedence (queryMap : Options) (paging : Option PagingMap) (options : Options)
    (k : String) : Option Value :=
  (requested queryMap k).or (fallback paging options k)

/-- `(seq order_by)` is nil. -/
def unordered : Option Value → Bool
  | none | some (.json .null) | some (.json (.arr [])) | some (.ordering []) => true
  | _ => false

/-- An option as the engine reads it: an order by no fields is no order. -/
def asRead (k : String) (v : Option Value) : Option Value :=
  if k = "order_by" ∧ unordered v then none else v

/-- Every engine option is the one precedence gives, and a request that turns join dropping off
leaves the joins of the plan. -/
def FollowsPrecedence (setting : JoinDropping) (queryMap options : Options) : Prop :=
  ∀ (context : QueryContext) (e : EngineQuery), queryContext queryMap = some context →
    userQueryToEngineQuery queryMap options = some e →
      (∀ k, k ≠ "query" → asRead k (e.queryOptions k) =
        asRead k (precedence queryMap context.pagingClauses options k)) ∧
      (queryMap "optimize_drop_unused_joins" = some .false →
        dropsUnusedJoins setting e.queryOptions = false)

/-- No request parameter is false where the paging clauses or the defaults are not, paging clauses
without an order leave no default order behind, and joins are not dropped always where the request
keeps them. -/
structure FalseKept (setting : JoinDropping) (queryMap options : Options)
    (paging : Option PagingMap) : Prop where
  fallback : ∀ k, k ≠ "query" → queryMap k = some .false →
    fallback paging options k = some .false
  order : ∀ p, paging = some p → p.orderBy = none →
    (queryMap "order_by").any Value.truthy = false → unordered (options "order_by")
  setting : queryMap "optimize_drop_unused_joins" = some .false → setting ≠ .always

/-! ## Reading the merged map -/

theorem getClause_truthy (clause : String) (clauses : List Json) (v : Json)
    (h : getClause clause clauses = some (some v)) : Pql.truthy v = true := by
  unfold getClause at h
  split at h
  · simp at h
  · split at h
    · split at h
      · rename_i ht
        simp only [Option.some.injEq] at h
        rwa [h] at ht
      · simp at h
    · simp at h
  · simp at h

/-- The arguments of paging clauses are neither nil nor false. -/
structure Arguments (paging : PagingMap) : Prop where
  limit : ∀ v, paging.limit = some v → Pql.truthy v = true
  offset : ∀ v, paging.offset = some v → Pql.truthy v = true

theorem readClauses_arguments (clauses : List Json) (paging : PagingMap)
    (h : readClauses clauses = some paging) : Arguments paging := by
  unfold readClauses at h
  split at h
  · simp only [createPagingMap, Option.bind_eq_bind, Option.bind_eq_some_iff] at h
    obtain ⟨limit, hlimit, offset, hoffset, orderBy, -, hp⟩ := h
    simp only [Option.pure_def, Option.some.injEq] at hp
    subst hp
    constructor
    · intro v hv
      exact getClause_truthy "limit" clauses v (by rw [hlimit]; exact congrArg some hv)
    · intro v hv
      exact getClause_truthy "offset" clauses v (by rw [hoffset]; exact congrArg some hv)
  · simp at h

theorem parseQueryContext_arguments (query : Json) (context : QueryContext)
    (h : parseQueryContext query = some context) (paging : PagingMap)
    (hp : context.pagingClauses = some paging) : Arguments paging := by
  have hmap : ∀ (clauses : List Json) (f : PagingMap → QueryContext),
      (∀ p, (f p).pagingClauses = some p) → (readClauses clauses).map f = some context →
      Arguments paging := by
    intro clauses f hf hc
    rw [Option.map_eq_some_iff] at hc
    obtain ⟨p, hread, hfp⟩ := hc
    have hpaging := hf p
    rw [hfp, hp] at hpaging
    cases hpaging
    exact readClauses_arguments clauses paging hread
  unfold parseQueryContext at h
  split at h
  · split at h
    · cases h
      simp at hp
    · split at h
      · exact hmap _ _ (fun _ => rfl) h
      · split at h
        · cases h
          simp at hp
        · exact hmap _ _ (fun _ => rfl) h
        · simp at h
  · simp at h

theorem queryContext_arguments (queryMap : Options) (context : QueryContext)
    (h : queryContext queryMap = some context) (paging : PagingMap)
    (hp : context.pagingClauses = some paging) : Arguments paging := by
  unfold queryContext at h
  split at h
  · exact parseQueryContext_arguments _ context h paging hp
  · simp at h

theorem pagingOptions_orderBy (paging : PagingMap) :
    pagingOptions (some paging) "order_by" = some (.ordering (orderTerms paging.orderBy)) := by
  simp [pagingOptions, stripNilValues, renameKeys, Value.truthy]

theorem filter_argument (v : Option Json) (h : ∀ w, v = some w → Pql.truthy w = true) :
    (some (Value.json (v.getD .null))).filter Value.truthy = v.map .json := by
  cases v with
  | none => rfl
  | some w => simp [Option.filter, Value.truthy, h w rfl]

theorem pagingOptions_other (paging : PagingMap) (h : Arguments paging) (k : String)
    (hk : k ≠ "order_by") : pagingOptions (some paging) k = inQuery paging k := by
  rw [pagingOptions, stripNilValues, renameKeys, Options.put_other _ _ _ _ hk, inQuery]
  by_cases hoffset : k = "offset"
  · subst hoffset
    rw [Options.put_same, filter_argument paging.offset h.offset]
    simp
  · rw [Options.put_other _ _ _ _ hoffset]
    by_cases hlimit : k = "limit"
    · subst hlimit
      rw [Options.put_same, filter_argument paging.limit h.limit]
      simp
    · rw [Options.put_other _ _ _ _ hlimit, if_neg hlimit, if_neg hoffset, if_neg hk]
      rfl

/-- What is left of an option when the request has no value for it. -/
def merged (paging : Option PagingMap) (options : Options) : Options :=
  (unpaged.merge options).merge (pagingOptions paging)

theorem merged_other (paging : Option PagingMap) (h : ∀ p, paging = some p → Arguments p)
    (options : Options) (k : String) (hk : k ≠ "order_by") :
    merged paging options k = fallback paging options k := by
  cases paging with
  | none => simp [merged, fallback, pagingOptions, inQuery?]
  | some p => simp [merged, fallback, inQuery?, pagingOptions_other p (h p rfl) k hk]

/-- Paging clauses without an order stand before the default order. -/
def OrderKept (paging : Option PagingMap) (options : Options) : Prop :=
  ∀ p, paging = some p → p.orderBy = none → unordered (options "order_by")

theorem merged_orderBy (paging : Option PagingMap) (options : Options) :
    (∃ p, paging = some p ∧ p.orderBy = none ∧
      merged paging options "order_by" = some (.ordering []) ∧
      fallback paging options "order_by" = (options "order_by").or (some .null)) ∨
    (OrderKept paging options ∧
      merged paging options "order_by" = fallback paging options "order_by") := by
  cases paging with
  | none =>
    apply Or.inr
    constructor
    · intro p hp
      simp at hp
    · simp [merged, fallback, pagingOptions, inQuery?]
  | some p =>
    cases ho : p.orderBy with
    | none =>
      apply Or.inl
      refine ⟨p, rfl, ho, ?_, ?_⟩
      · simp [merged, pagingOptions_orderBy, ho, orderTerms]
      · simp [fallback, inQuery?, inQuery, ho, unpaged]
    | some v =>
      apply Or.inr
      constructor
      · intro q hq hnone
        cases hq
        rw [ho] at hnone
        simp at hnone
      · simp [merged, fallback, inQuery?, inQuery, pagingOptions_orderBy, ho]

theorem unordered_or_null (v : Option Value) : unordered (v.or (some .null)) = unordered v := by
  cases v with
  | none => rfl
  | some w => rfl

theorem asRead_eq_none (v : Option Value) : asRead "order_by" v = none ↔ unordered v := by
  unfold asRead
  cases h : unordered v with
  | true => simp
  | false =>
    cases v with
    | none => simp [unordered] at h
    | some w => simp

theorem asRead_eq_false (k : String) (v : Option Value) :
    asRead k v = some .false ↔ v = some .false := by
  unfold asRead
  split
  · rename_i h
    constructor
    · intro hf
      simp at hf
    · intro hf
      rw [hf] at h
      simp [unordered, Value.false] at h
  · exact Iff.rfl

/-- Without a value of the request, an option is the one precedence gives. -/
theorem asRead_merged_iff (paging : Option PagingMap) (h : ∀ p, paging = some p → Arguments p)
    (options : Options) (k : String) :
    asRead k (merged paging options k) = asRead k (fallback paging options k) ↔
      (k = "order_by" → OrderKept paging options) := by
  by_cases hk : k = "order_by"
  · subst hk
    obtain ⟨p, hp, ho, hm, hf⟩ | ⟨hkept, hm⟩ := merged_orderBy paging options
    · have hnone : asRead "order_by" (some (.ordering [])) = none := by simp [asRead, unordered]
      rw [hm, hf, hnone, eq_comm, asRead_eq_none, unordered_or_null]
      constructor
      · intro hu _ q _ _
        exact hu
      · intro hkept
        exact hkept rfl p hp ho
    · rw [hm]
      exact ⟨fun _ _ => hkept, fun _ => rfl⟩
  · rw [merged_other paging h options k hk]
    exact ⟨fun _ hc => absurd hc hk, fun _ => rfl⟩

/-- Where the request is false, what is left of the option has to be false. -/
theorem asRead_merged_false (paging : Option PagingMap) (h : ∀ p, paging = some p → Arguments p)
    (options : Options) (k : String) :
    asRead k (merged paging options k) = some .false ↔
      fallback paging options k = some .false ∧ (k = "order_by" → OrderKept paging options) := by
  rw [asRead_eq_false]
  by_cases hk : k = "order_by"
  · subst hk
    obtain ⟨p, hp, ho, hm, hf⟩ | ⟨hkept, hm⟩ := merged_orderBy paging options
    · rw [hm, hf]
      constructor
      · intro hc
        simp [Value.false] at hc
      · intro hc
        have hu := hc.2 rfl p hp ho
        rw [← unordered_or_null, hc.1] at hu
        simp [unordered, Value.false] at hu
    · rw [hm]
      exact ⟨fun hc => ⟨hc, fun _ => hkept⟩, fun hc => hc.1⟩
  · rw [merged_other paging h options k hk]
    exact ⟨fun hc => ⟨hc, fun hc' => absurd hc' hk⟩, fun hc => hc.1⟩

theorem truthy_eq_false (v : Value) (h : v.truthy = false) : v = .null ∨ v = .false := by
  cases v with
  | ordering terms => simp [Value.truthy] at h
  | json v =>
    cases v with
    | null => exact Or.inl rfl
    | bool b =>
      cases b with
      | false => exact Or.inr rfl
      | true => simp [Value.truthy, Pql.truthy] at h
    | _ => simp [Value.truthy, Pql.truthy] at h

/-- The options of the engine. -/
def engineOptions (queryMap options : Options) (paging : Option PagingMap) : Options :=
  (merged paging options).merge (stripNilValues (queryMap.dissoc "query"))

theorem userQueryToEngineQuery_eq (queryMap options : Options) (context : QueryContext)
    (e : EngineQuery) (hc : queryContext queryMap = some context)
    (he : userQueryToEngineQuery queryMap options = some e) :
    e.queryOptions = engineOptions queryMap options context.pagingClauses := by
  simp only [userQueryToEngineQuery, hc, Option.map_some, Option.some.injEq] at he
  rw [← he]
  rfl

/-- One option of the engine follows precedence. -/
theorem engineOptions_iff (queryMap options : Options) (paging : Option PagingMap)
    (h : ∀ p, paging = some p → Arguments p) (k : String) (hk : k ≠ "query") :
    asRead k (engineOptions queryMap options paging k) =
        asRead k (precedence queryMap paging options k) ↔
      (queryMap k = some .false → fallback paging options k = some .false) ∧
      (k = "order_by" → (queryMap k).any Value.truthy = false → OrderKept paging options) := by
  have hstrip : stripNilValues (queryMap.dissoc "query") k = (queryMap k).filter Value.truthy := by
    rw [stripNilValues, Options.dissoc_other _ _ _ hk]
  rw [engineOptions, Options.merge_apply, hstrip, precedence, requested]
  have habsent : ∀ o : Option Value, o ≠ some .false → o.any Value.truthy = false →
      (o.filter Value.truthy = none ∧ o.filter (· ≠ .null) = none) := by
    intro o hfalse hany
    cases o with
    | none => simp
    | some v =>
      have hv : v.truthy = false := by simpa using hany
      obtain rfl | rfl := truthy_eq_false v hv
      · simp [hv]
      · exact absurd rfl hfalse
  by_cases hfalse : queryMap k = some .false
  · have hfilter : (some Value.false).filter (· ≠ .null) = some .false := by decide
    have hdrop : (some Value.false).filter Value.truthy = none := by decide
    have hany : (some Value.false).any Value.truthy = false := by decide
    rw [hfalse, hfilter, hdrop, Option.none_or, Option.some_or, hany]
    have hread : asRead k (some .false) = some .false := (asRead_eq_false k _).mpr rfl
    rw [hread, asRead_merged_false paging h options k]
    simp
  · by_cases hany : (queryMap k).any Value.truthy = false
    · obtain ⟨hdrop, hfilter⟩ := habsent (queryMap k) hfalse hany
      rw [hdrop, hfilter, Option.none_or, Option.none_or, asRead_merged_iff paging h options k]
      simp [hfalse, hany]
    · cases hv : queryMap k with
      | none => simp [hv] at hany
      | some v =>
        have htruthy : v.truthy = true := by simpa [hv] using hany
        have hnull : v ≠ .null := by
          intro hn
          rw [hn] at htruthy
          simp [Value.null, Value.truthy, Pql.truthy] at htruthy
        rw [hv] at hfalse
        simp [Option.filter, htruthy, hnull, hfalse]

/-- A false value that reaches the engine is the value it reads. -/
theorem dropsUnusedJoins_false_iff (setting : JoinDropping) (options : Options)
    (h : options "optimize_drop_unused_joins" = some .false) :
    dropsUnusedJoins setting options = false ↔ setting ≠ .always := by
  simp [dropsUnusedJoins, h, Value.false, Value.truthy, Pql.truthy]

theorem userQueryToEngineQuery_exists (queryMap options : Options) (context : QueryContext)
    (hc : queryContext queryMap = some context) :
    ∃ e, userQueryToEngineQuery queryMap options = some e := by
  simp [userQueryToEngineQuery, hc]

/-- Where the option follows precedence, `optimize_drop_unused_joins=false` reaches the engine. -/
theorem engineOptions_joins (queryMap options : Options) (paging : Option PagingMap)
    (hread : asRead "optimize_drop_unused_joins"
        (engineOptions queryMap options paging "optimize_drop_unused_joins") =
      asRead "optimize_drop_unused_joins"
        (precedence queryMap paging options "optimize_drop_unused_joins"))
    (hfalse : queryMap "optimize_drop_unused_joins" = some .false) :
    engineOptions queryMap options paging "optimize_drop_unused_joins" = some .false := by
  have hp : precedence queryMap paging options "optimize_drop_unused_joins" = some .false := by
    rw [precedence, requested, hfalse]
    rfl
  rw [hp, (asRead_eq_false _ _).mpr rfl] at hread
  exact (asRead_eq_false _ _).mp hread

/-- The options of the engine follow precedence exactly when false request parameters are kept. -/
theorem followsPrecedence_iff (setting : JoinDropping) (queryMap options : Options) :
    FollowsPrecedence setting queryMap options ↔
      ∀ context, queryContext queryMap = some context →
        FalseKept setting queryMap options context.pagingClauses := by
  constructor
  · intro h context hc
    obtain ⟨e, he⟩ := userQueryToEngineQuery_exists queryMap options context hc
    have hargs := queryContext_arguments queryMap context hc
    obtain ⟨hkeys, hoff⟩ := h context e hc he
    rw [userQueryToEngineQuery_eq queryMap options context e hc he] at hkeys hoff
    have hkept := fun k hk =>
      (engineOptions_iff queryMap options context.pagingClauses hargs k hk).mp (hkeys k hk)
    constructor
    · intro k hk
      exact (hkept k hk).1
    · intro p hp ho hany
      exact (hkept "order_by" (by decide)).2 rfl hany p hp ho
    · intro hfalse
      have hjoins := engineOptions_joins queryMap options context.pagingClauses
        (hkeys _ (by decide)) hfalse
      exact (dropsUnusedJoins_false_iff setting _ hjoins).mp (hoff hfalse)
  · intro h context e hc he
    have hargs := queryContext_arguments queryMap context hc
    have hkept := h context hc
    rw [userQueryToEngineQuery_eq queryMap options context e hc he]
    have hkeys : ∀ k, k ≠ "query" →
        asRead k (engineOptions queryMap options context.pagingClauses k) =
          asRead k (precedence queryMap context.pagingClauses options k) := by
      intro k hk
      apply (engineOptions_iff queryMap options context.pagingClauses hargs k hk).mpr
      constructor
      · exact hkept.fallback k hk
      · intro ho hany p hp hnone
        rw [ho] at hany
        exact hkept.order p hp hnone hany
    constructor
    · exact hkeys
    · intro hfalse
      have hjoins := engineOptions_joins queryMap options context.pagingClauses
        (hkeys _ (by decide)) hfalse
      exact (dropsUnusedJoins_false_iff setting _ hjoins).mpr (hkept.setting hfalse)

/-- `["from" "nodes"]` with `optimize_drop_unused_joins=false`. -/
def keepJoins : Options :=
  (Options.empty.put "query" (.json (.arr [.str "from", .str "nodes"]))).put
    "optimize_drop_unused_joins" .false

theorem followsPrecedence_fails :
    ¬ ∀ (setting : JoinDropping) (queryMap options : Options),
      FollowsPrecedence setting queryMap options := by
  intro h
  have hc : queryContext keepJoins = some ⟨underscoresToDashes "nodes", .arr [], none⟩ := rfl
  obtain ⟨e, he⟩ := userQueryToEngineQuery_exists keepJoins Options.empty _ hc
  have hoff := (h .byDefault keepJoins Options.empty _ e hc he).2 rfl
  rw [userQueryToEngineQuery_eq keepJoins Options.empty _ e hc he] at hoff
  have hdropped : engineOptions keepJoins Options.empty none "optimize_drop_unused_joins" =
      none := by decide
  simp [dropsUnusedJoins, hdropped, JoinDropping.enabledByDefault] at hoff

end OpenVoxDB.EngineOptions
