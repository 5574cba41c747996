import OpenVoxDB.Elision
import OpenVoxDB.Truth

/-!
# The rows of a query with elided criteria

The rows that a query asks for, the rows that its expansion selects, and when
they are the same.
-/

namespace OpenVoxDB.Elision

open QueryExpansion

variable {env : Env} (schema : Schema)

/-! ## Rows -/

/-- The rows of the query records and what the comparisons say of them. -/
structure World (Row : Type) where
  /-- The truth of a comparison, for a row of a query record. -/
  compare : String → Ast → Row → Truth
  rows : String → List Row
  /-- Whether columns of a row equal columns of a row of a query record. -/
  equal : Ast → String → Ast → Row → Row → Truth

namespace World

variable {Row : Type} (W : World Row)

/-- SQL's `IN`, over the rows that a filter keeps. -/
def within (columns : Ast) (name : String) (foreign : Ast) (filter : Row → Truth) (r : Row) :
    Truth :=
  .any (((W.rows name).filter fun r' => filter r' = .yes).map
    (W.equal columns name foreign r))

/-- Whether the node of a row is deactivated or expired. -/
def inNotActive (r : Row) : Truth :=
  W.within (.str "certname") "select_not_active_nodes" (.str "certname") (fun _ => .yes) r

/-- Whether the node of a row became so within the purge ttl. -/
def inInactive (r : Row) : Truth :=
  W.within (.str "certname") "select_inactive_nodes" (.str "certname") (fun _ => .yes) r

end World

/-- A junction by its operands; `blank` is what a junction without operands renders to. -/
def combine (blank : Truth) (op : String) (operands : List Truth) (other : Truth) : Truth :=
  if op = "and" then if operands = [] then blank else .all operands
  else if op = "or" then if operands = [] then blank else .any operands
  else if op = "not" then match operands with
    | [t] => t.not
    | _ => .yes
  else other

/-- The filter of a subquery, which lets every row pass when there is none. -/
def filterTruth (operands : List Truth) : Truth := operands.headD .yes

section Meaning

variable {Row : Type} (blank : Truth) (W : World Row)

mutual

/-- The truth of an expanded clause as a filter on the rows of a query record. What the
planner makes nothing of filters nothing. -/
def meaning (name : String) : Ast → Row → Truth
  | .elide, _ => .yes
  | .lit v, r => W.compare name (.lit v) r
  | .vec ctx (.lit (.str op) :: xs), r =>
    combine blank op (meanings name xs r)
      (if op = "in" then membership name xs r
       else W.compare name (.vec ctx (.lit (.str op) :: xs)) r)
  | .vec ctx xs, r => W.compare name (.vec ctx xs) r

/-- `["in" & xs]` -/
def membership (name : String) : List Ast → Row → Truth
  | [columns, .vec _ [.lit (.str op), x, .vec _ (.lit (.str head) :: rest)]], r =>
    if op = "extract" then
      W.within columns head x (fun r' => filterTruth (meanings head rest r')) r
    else if op = "from" then
      let entity := selectName (x.str?.getD "")
      W.within columns entity (rest.headD .elide)
        (fun r' => filterTruth (meanings entity rest r').tail) r
    else W.compare name (.vec .none [.str "in", columns,
      .vec .none [.str op, x, .vec .none (.str head :: rest)]]) r
  | xs, r => W.compare name (.made (.str "in" :: xs)) r

def meanings (name : String) : List Ast → Row → List Truth
  | [], _ => []
  | x :: xs, r => meaning name x r :: meanings name xs r

end

/-- The disjunction of the active and the inactive nodes, in both spellings. -/
def activeOrInactive : List (Clause env) → Bool
  | [.nodeActive (.bool a), .nodeActive (.bool b)] => a != b
  | _ => false

/-- The reading of an implicit subquery, by the columns of the relationship. -/
def relationshipReading (name entity : String) (filter : Row → Truth) (r : Row) : Truth :=
  match relationshipColumns schema name entity with
  | some (localColumns, foreignColumns) =>
    W.within (.made (localColumns.map .str)) (selectName entity)
      (.made (foreignColumns.map .str)) filter r
  | none => W.compare name (unrelated entity) r

/-- The rows that a clause asks for: the criteria for any node and for any type of report
hold of every row, and `type` is an ordinary field where it is not the type of a report. -/
def reading (name : String) : Clause env → Row → Truth
  | .leaf l, r => meaning blank W name (l.image schema name) r
  | .typeAny, r =>
    if reportType (schema.context name) then .yes
    else W.compare name (.made [.str "=", .str "type", .str "any"]) r
  | .nodeState s, r =>
    if env.lowerCase s = "active" then (W.inNotActive r).not
    else if env.lowerCase s = "inactive" then W.inInactive r
    else if env.lowerCase s = "any" then .yes
    else .unknown
  | .nodeActive v, r => if v.truthy then (W.inNotActive r).not else W.inInactive r
  | .and cs, r => .all (cs.map fun c => reading name c r)
  | .or cs, r =>
    if activeOrInactive cs then .yes else .any (cs.map fun c => reading name c r)
  | .not c, r => (reading name c r).not
  | .select link c, r => W.within (link.columns.operand.ast .none) (selectName link.entity)
      (link.foreign.operand.ast .none) (fun r' => reading (selectName link.entity) c r') r
  | .fromEntity link c, r => W.within (link.columns.operand.ast .none)
      (selectName link.entity) (link.foreign.operand.ast .none)
      (fun r' => reading (selectName link.entity) c r') r
  | .implicit entity c, r => relationshipReading schema W name entity
      (fun r' => reading (selectName entity) c r') r

end Meaning

/-! ## When the expansion keeps the meaning -/

/-- The expansion drops the clause. -/
def removed : Clause env → Bool
  | .leaf _ | .nodeActive _ | .select _ _ | .fromEntity _ _ | .implicit _ _ => false
  | .typeAny => true
  | .nodeState s => env.lowerCase s != "active" && env.lowerCase s != "inactive"
  | .and cs | .or cs => (cs.map removed).all id
  | .not c => removed c

/-- What a clause reads as, where that is the same for every row. -/
def known (name : String) : Clause env → Option Bool
  | .leaf _ | .nodeActive _ => none
  | .typeAny => if reportType (schema.context name) then some true else none
  | .nodeState s =>
    if env.lowerCase s = "active" ∨ env.lowerCase s = "inactive" then none
    else if env.lowerCase s = "any" then some true
    else none
  | .and cs =>
    if (cs.map (known name)).contains (some false) then some false
    else if (cs.map (known name)).all (· == some true) then some true
    else none
  | .or cs =>
    if activeOrInactive cs then some true
    else if (cs.map (known name)).contains (some true) then some true
    else if (cs.map (known name)).all (· == some false) then some false
    else none
  | .not c => (known name c).map Bool.not
  | .select link c | .fromEntity link c =>
    if known (selectName link.entity) c = some false then some false else none
  | .implicit entity c =>
    if (relationshipColumns schema name entity).isSome ∧
      known (selectName entity) c = some false then some false else none

/-- A junction, which is left without operands when it is dropped. -/
def isJunction : Clause env → Bool
  | .and _ | .or _ => true
  | _ => false

/-- A dropped clause lets every row pass where it is left as a filter. -/
def passes (blank : Truth) (c : Clause env) : Bool := !isJunction c || blank == .yes

/-- What the expansion drops is true of every row where it stood in a conjunction or was
the filter of a subquery, and false of every row where it stood in a disjunction. -/
def sound (blank : Truth) (name : String) : Clause env → Bool
  | .leaf _ | .typeAny | .nodeState _ | .nodeActive _ => true
  | .and cs => (cs.map fun c =>
      if removed c then known schema name c == some true else sound blank name c).all id
  | .or cs => !activeOrInactive cs && (cs.map fun c =>
      if removed c then known schema name c == some false else sound blank name c).all id
  | .not c => sound blank name c
  | .select link c | .fromEntity link c =>
    if removed c then known schema (selectName link.entity) c == some true
    else sound blank (selectName link.entity) c
  | .implicit entity c =>
    if removed c then known schema (selectName entity) c == some (passes blank c)
    else sound blank (selectName entity) c

/-- The same of the filter of a whole query. -/
def soundFilter (blank : Truth) (name : String) (c : Clause env) : Bool :=
  if removed c then known schema name c == some (passes blank c)
  else sound schema blank name c

theorem removable_junction (op : String) (xs : List Ast) (hop : op = "and" ∨ op = "or" ∨ op = "not") :
    removable (.made (.str op :: xs)) = xs.isEmpty := by
  cases xs with
  | nil => rcases hop with rfl | rfl | rfl <;> rfl
  | cons x xs => exact removable_vec_cons_cons ..

theorem keep_map_image (name : String) (cs : List (Clause env))
    (h : ∀ c ∈ cs, removable (c.image schema name) = removed c) :
    keep (cs.map (Clause.image schema name)) =
      (cs.filter fun c => !removed c).map (Clause.image schema name) := by
  rw [keep, List.filter_map]
  congr 1
  exact List.filter_congr fun c hc => by simp [h c hc]

theorem isEmpty_filter_removed (cs : List (Clause env)) :
    (cs.filter fun c => !removed c).isEmpty = (cs.map removed).all id := by
  induction cs with
  | nil => rfl
  | cons c cs ih => cases h : removed c <;> simp_all

theorem removable_relationshipImage (name entity : String) (filter : Ast) :
    removable (relationshipImage schema name entity filter) = false := by
  unfold relationshipImage
  split <;> exact removable_vec_cons_cons ..

theorem removable_image (c : Clause env) (name : String) :
    removable (c.image schema name) = removed c := by
  induction c using Clause.ind generalizing name with
  | leaf l => rw [Clause.image, removed]; exact l.not_removable_image schema name
  | typeAny => rw [Clause.image, removed]; rfl
  | nodeState s =>
    rw [Clause.image, removed]
    split
    · next h => simpa [h] using standing_notActive.removable
    · split
      · next h => simpa [h] using standing_inactive.removable
      · next hactive hinactive => simp [hactive, hinactive, removable]
  | nodeActive v =>
    rw [Clause.image, removed]
    split
    · exact standing_notActive.removable
    · exact standing_inactive.removable
  | and cs ih | or cs ih =>
    rw [Clause.image, removed, removable_junction _ _ (by simp),
      keep_map_image schema name cs fun c hc => ih c hc name, List.isEmpty_map,
      isEmpty_filter_removed]
  | not c ih =>
    rw [Clause.image, removed, removable_junction _ _ (by simp), ← ih name]
    cases h : removable (c.image schema name) <;> simp [keep, h]
  | select link c => rw [Clause.image, removed]; exact removable_vec_cons_cons ..
  | fromEntity link c => rw [Clause.image, removed]; exact removable_vec_cons_cons ..
  | implicit entity c => rw [Clause.image, removed]; exact removable_relationshipImage ..

section Truths

variable {Row : Type} (blank : Truth) (W : World Row)

theorem meanings_eq_map (name : String) (xs : List Ast) (r : Row) :
    meanings blank W name xs r = xs.map fun x => meaning blank W name x r := by
  induction xs with
  | nil => simp [meanings]
  | cons x xs ih => simp [meanings, ih]

/-- Only the rows that a filter keeps matter. -/
theorem within_congr (columns : Ast) (name : String) (foreign : Ast) (f g : Row → Truth)
    (h : ∀ r, f r = .yes ↔ g r = .yes) (r : Row) :
    W.within columns name foreign f r = W.within columns name foreign g r := by
  simp only [World.within, h]

theorem within_of_no (columns : Ast) (name : String) (foreign : Ast) (f : Row → Truth)
    (h : ∀ r, f r = .no) (r : Row) : W.within columns name foreign f r = .no := by
  have hnone : ((W.rows name).filter fun r' => f r' = .yes) = [] :=
    List.filter_eq_nil_iff.mpr fun r' _ => by simp [h r']
  rw [World.within, hnone]
  rfl

theorem relationshipReading_congr (name entity : String) (f g : Row → Truth)
    (h : ∀ r, f r = .yes ↔ g r = .yes) (r : Row) :
    relationshipReading schema W name entity f r =
      relationshipReading schema W name entity g r := by
  unfold relationshipReading
  split
  · exact within_congr W _ _ _ f g h r
  · rfl

theorem reading_of_known (c : Clause env) (name : String) (b : Bool)
    (h : known schema name c = some b) (r : Row) :
    reading schema blank W name c r = .ofBool b := by
  induction c using Clause.ind generalizing name b r with
  | leaf | nodeActive => simp [known] at h
  | select link c ih | fromEntity link c ih =>
    rw [known] at h
    split at h
    · next hc =>
      cases h
      rw [reading]
      exact within_of_no W _ _ _ _ (ih (selectName link.entity) false hc) r
    · cases h
  | implicit entity c ih =>
    rw [known] at h
    split at h
    · next hc =>
      cases h
      obtain ⟨columns, hcolumns⟩ := Option.isSome_iff_exists.mp hc.1
      rw [reading, relationshipReading, hcolumns]
      exact within_of_no W _ _ _ _ (ih (selectName entity) false hc.2) r
    · cases h
  | typeAny =>
    rw [known] at h
    split at h
    · next ht => cases h; simp [reading, ht]
    · cases h
  | nodeState s =>
    rw [known] at h
    split at h
    · cases h
    · next hs =>
      rw [not_or] at hs
      split at h
      · next hany => cases h; rw [reading, if_neg hs.1, if_neg hs.2, if_pos hany]; rfl
      · cases h
  | and cs ih =>
    rw [known] at h
    rw [reading]
    split at h
    · next hno =>
      cases h
      obtain ⟨c, hc, hknown⟩ := List.mem_map.mp (List.contains_iff_mem.mp hno)
      refine Truth.all_eq_no_of_mem _ (List.mem_map.mpr ⟨c, hc, ?_⟩)
      exact ih c hc name false hknown r
    · split at h
      · next hyes =>
        cases h
        refine (Truth.all_eq_yes_iff _).mpr (List.forall_mem_map.mpr fun c hc => ?_)
        exact ih c hc name true
          (by simpa using List.forall_mem_map.mp (List.all_eq_true.mp hyes) c hc) r
      · cases h
  | or cs ih =>
    rw [known] at h
    rw [reading]
    split at h
    · next hform => cases h; rw [if_pos hform]; rfl
    · next hform =>
      rw [if_neg hform]
      split at h
      · next hyes =>
        cases h
        obtain ⟨c, hc, hknown⟩ := List.mem_map.mp (List.contains_iff_mem.mp hyes)
        refine Truth.any_eq_yes_of_mem _ (List.mem_map.mpr ⟨c, hc, ?_⟩)
        exact ih c hc name true hknown r
      · split at h
        · next hno =>
          cases h
          refine (Truth.any_eq_no_iff _).mpr (List.forall_mem_map.mpr fun c hc => ?_)
          exact ih c hc name false
            (by simpa using List.forall_mem_map.mp (List.all_eq_true.mp hno) c hc) r
        · cases h
  | not c ih =>
    rw [known] at h
    obtain ⟨b', hb', rfl⟩ := Option.map_eq_some_iff.mp h
    rw [reading, ih name b' hb' r, Truth.not_ofBool]

theorem meaning_junction (name op : String) (cs : List (Clause env)) (r : Row)
    (fold : List Truth → Truth)
    (hop : op = "and" ∧ fold = .all ∨ op = "or" ∧ fold = .any)
    (hkept : (cs.map removed).all id = false) :
    meaning blank W name (.made (.str op :: keep (cs.map (Clause.image schema name)))) r =
      fold ((cs.filter fun c => !removed c).map fun c =>
        meaning blank W name (c.image schema name) r) := by
  have hne : (cs.filter fun c => !removed c) ≠ [] := by
    intro hnil
    rw [← isEmpty_filter_removed, hnil] at hkept
    cases hkept
  rw [meaning, meanings_eq_map, keep_map_image schema name cs fun c _ => removable_image schema c
    name, List.map_map]
  rcases hop with ⟨rfl, rfl⟩ | ⟨rfl, rfl⟩ <;> simp [combine, hne, Function.comp_def]

/-- What a dropped clause means where it is left as a filter. -/
theorem meaning_of_removed (c : Clause env) (name : String) (h : removed c = true) (r : Row) :
    meaning blank W name (c.image schema name) r = if isJunction c then blank else .yes := by
  have hvec (op : String) (xs : List Ast) (hxs : removable (.made (.str op :: xs)) = true)
      (hop : op = "and" ∨ op = "or" ∨ op = "not") : xs = [] := by
    rw [removable_junction op xs hop] at hxs
    exact List.isEmpty_iff.mp hxs
  have hr := (removable_image schema c name).trans h
  match c with
  | .typeAny => simp [Clause.image, meaning, isJunction]
  | .nodeState s =>
    rw [removed] at h
    have hs : env.lowerCase s ≠ "active" ∧ env.lowerCase s ≠ "inactive" := by simpa using h
    rw [Clause.image, if_neg hs.1, if_neg hs.2]
    simp [meaning, isJunction]
  | .and cs =>
    rw [Clause.image] at hr ⊢
    rw [hvec _ _ hr (by simp)]
    simp [meaning, meanings, combine, isJunction]
  | .or cs =>
    rw [Clause.image] at hr ⊢
    rw [hvec _ _ hr (by simp)]
    simp [meaning, meanings, combine, isJunction]
  | .not c =>
    rw [Clause.image] at hr ⊢
    rw [hvec _ _ hr (by simp)]
    simp [meaning, meanings, combine, isJunction]
  | .leaf _ | .nodeActive _ | .select _ _ | .fromEntity _ _ | .implicit _ _ =>
    simp [removed] at h

/-- The expanded clause is true of the rows that the clause asks for. -/
def Keeps (name : String) (c : Clause env) : Prop :=
  ∀ r, meaning blank W name (c.image schema name) r = reading schema blank W name c r

theorem removed_passes (c : Clause env) (name : String) (h : removed c = true) (r : Row) :
    meaning blank W name (c.image schema name) r = .yes ↔ passes blank c = true := by
  rw [meaning_of_removed schema blank W c name h]
  cases hj : isJunction c <;> simp [passes, hj]

/-- A sound filter selects the rows that the clause asks for. -/
theorem selects_of_soundFilter (c : Clause env) (name : String)
    (h : soundFilter schema blank name c = true)
    (ih : removed c = false → sound schema blank name c = true → Keeps schema blank W name c)
    (r : Row) :
    meaning blank W name (c.image schema name) r = .yes ↔
      reading schema blank W name c r = .yes := by
  unfold soundFilter at h
  split at h
  · next hremoved =>
    rw [removed_passes schema blank W c name hremoved,
      reading_of_known schema blank W c name (passes blank c) (by simpa using h)]
    cases passes blank c <;> decide
  · next hkept => rw [ih (by simpa using hkept) h r]

/-- The filter of a subquery, from which a dropped clause is taken out. -/
theorem filterTruth_of_sound (c : Clause env) (name : String)
    (h : (if removed c then known schema name c == some true else sound schema blank name c) =
      true)
    (ih : removed c = false → sound schema blank name c = true → Keeps schema blank W name c)
    (r : Row) :
    filterTruth (meanings blank W name (keep [c.image schema name]) r) =
      reading schema blank W name c r := by
  have himage := removable_image schema c name
  split at h
  · next hremoved =>
    rw [reading_of_known schema blank W c name true (by simpa using h)]
    simp [keep, himage, hremoved, meanings, filterTruth]
  · next hkept =>
    have hkept : removed c = false := by simpa using hkept
    simpa [keep, himage, hkept, meanings, filterTruth] using ih hkept h r

theorem filter_operands (cs : List (Clause env)) (b : Bool) (name : String)
    (h : (cs.map fun c => if removed c then known schema name c == some b
      else sound schema blank name c).all id = true) :
    (∀ c ∈ cs, removed c = true → known schema name c = some b) ∧
      ∀ c ∈ cs, removed c = false → sound schema blank name c = true := by
  have h := List.forall_mem_map.mp (List.all_eq_true.mp h)
  refine ⟨fun c hc hr => ?_, fun c hc hr => ?_⟩
  · simpa [hr] using h c hc
  · simpa [hr] using h c hc

theorem meaning_notActive (name : String) (r : Row) :
    meaning blank W name notActive r = (W.inNotActive r).not := by
  simp [notActive, inCertname, meaning, meanings, membership, combine, World.inNotActive,
    filterTruth]

theorem meaning_inactive (name : String) (r : Row) :
    meaning blank W name inactive r = W.inInactive r := by
  simp [inactive, inCertname, meaning, meanings, membership, combine, World.inInactive,
    filterTruth]

theorem meaning_select (name : String) (columns foreign : Ast) (entity : String)
    (xs : List Ast) (r : Row) :
    meaning blank W name (.made [.str "in", columns, .made [.str "extract", foreign,
      .made (.str entity :: xs)]]) r =
      W.within columns entity foreign (fun r' => filterTruth (meanings blank W entity xs r'))
        r := by
  simp [meaning, membership, combine]

theorem meaning_from (name : String) (columns foreign : Ast) (entity : String)
    (xs : List Ast) (r : Row) :
    meaning blank W name (.made [.str "in", columns, .made [.str "from", .str entity,
      .made (.str "extract" :: foreign :: xs)]]) r =
      W.within columns (selectName entity) foreign
        (fun r' => filterTruth (meanings blank W (selectName entity) xs r')) r := by
  simp [meaning, membership, meanings, combine, Ast.str?]

theorem meaning_relationshipImage (name entity : String) (filter : Ast) (r : Row) :
    meaning blank W name (relationshipImage schema name entity filter) r =
      relationshipReading schema W name entity
        (fun r' => meaning blank W (selectName entity) filter r') r := by
  unfold relationshipImage relationshipReading
  cases relationshipColumns schema name entity with
  | some columns => simp [meaning_select, meanings, filterTruth]
  | none => simp [unrelated, meaning, combine]

/-- A clause that is kept and sound is true of the rows that it asks for. -/
theorem keeps_of_sound (c : Clause env) (name : String) (hkept : removed c = false)
    (h : sound schema blank name c = true) : Keeps schema blank W name c := by
  induction c using Clause.ind generalizing name with
  | leaf l => intro r; rw [Clause.image, reading]
  | typeAny => simp [removed] at hkept
  | nodeState s =>
    intro r
    rw [removed] at hkept
    rw [Clause.image, reading]
    by_cases hactive : env.lowerCase s = "active"
    · simp only [hactive, if_true, meaning_notActive]
    · have hinactive : env.lowerCase s = "inactive" := by simpa [hactive] using hkept
      simp [hinactive, meaning_inactive]
  | nodeActive v =>
    intro r
    rw [Clause.image, reading]
    split
    · exact meaning_notActive blank W name r
    · exact meaning_inactive blank W name r
  | and cs ih =>
    intro r
    rw [removed] at hkept
    rw [sound] at h
    obtain ⟨hknown, hsound⟩ := filter_operands schema blank cs true name h
    rw [Clause.image, meaning_junction schema blank W name "and" cs r .all (.inl ⟨rfl, rfl⟩) hkept,
      reading, ← Truth.all_filter (fun c => !removed c) _ cs fun c hc hr =>
        reading_of_known schema blank W c name true (hknown c hc (by simpa using hr)) r]
    congr 1
    refine List.map_congr_left fun c hc => ?_
    obtain ⟨hc, hr⟩ := List.mem_filter.mp hc
    have hr : removed c = false := by simpa using hr
    exact ih c hc name hr (hsound c hc hr) r
  | or cs ih =>
    intro r
    rw [removed] at hkept
    rw [sound, Bool.and_eq_true, Bool.not_eq_true'] at h
    obtain ⟨hform, h⟩ := h
    obtain ⟨hknown, hsound⟩ := filter_operands schema blank cs false name h
    rw [Clause.image, meaning_junction schema blank W name "or" cs r .any (.inr ⟨rfl, rfl⟩) hkept,
      reading, if_neg (by simp [hform]),
      ← Truth.any_filter (fun c => !removed c) _ cs fun c hc hr =>
        reading_of_known schema blank W c name false (hknown c hc (by simpa using hr)) r]
    congr 1
    refine List.map_congr_left fun c hc => ?_
    obtain ⟨hc, hr⟩ := List.mem_filter.mp hc
    have hr : removed c = false := by simpa using hr
    exact ih c hc name hr (hsound c hc hr) r
  | not c ih =>
    intro r
    rw [removed] at hkept
    rw [sound] at h
    have hr := removable_image schema c name
    rw [Clause.image, reading, ← ih name hkept h r]
    simp [keep, hr, hkept, meaning, meanings, combine]
  | select link c ih =>
    intro r
    rw [sound] at h
    rw [Clause.image, reading, meaning_select]
    exact congrArg (W.within _ _ _ · r)
      (funext (filterTruth_of_sound schema blank W c _ h (ih (selectName link.entity))))
  | fromEntity link c ih =>
    intro r
    rw [sound] at h
    rw [Clause.image, reading, meaning_from]
    exact congrArg (W.within _ _ _ · r)
      (funext (filterTruth_of_sound schema blank W c _ h (ih (selectName link.entity))))
  | implicit entity c ih =>
    intro r
    rw [sound] at h
    rw [Clause.image, reading, meaning_relationshipImage]
    exact relationshipReading_congr schema W name entity _ _
      (selects_of_soundFilter schema blank W c _ h (ih (selectName entity))) r

end Truths

end OpenVoxDB.Elision
