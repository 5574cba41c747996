import Mathlib
import OpenVoxDB.ElisionRows

/-!
# When eliding a criterion changes a query

A query in which nothing is compared twice can be given any truth values. Where
the expansion is not sound, some of them tell the query from its expansion.
-/

namespace OpenVoxDB.Elision

open QueryExpansion

/-- What a query compares: a field, the columns of a subquery, or the activity of a node. -/
inductive Atom where
  | compare (name : String) (comparison : Ast)
  | link (columns : Ast) (name : String) (foreign : Ast)
  | notActive
  | inactive

/-- Truth values for everything that a query compares. -/
abbrev Valuation := Atom → Bool

def onlyNotActive : Valuation
  | .notActive => true
  | _ => false

variable {env : Env} (schema : Schema) (blank : Truth)

/-- The link of an implicit subquery. -/
def relationshipAtoms (name entity : String) : List Atom :=
  match relationshipColumns schema name entity with
  | some (localColumns, foreignColumns) =>
    [.link (.made (localColumns.map .str)) (selectName entity) (.made (foreignColumns.map .str))]
  | none => []

/-- What a clause compares. -/
def atoms (name : String) : Clause env → List Atom
  | .leaf l => [.compare name (l.image schema name)]
  | .typeAny => [.compare name (.made [.str "=", .str "type", .str "any"])]
  | .nodeState s => if env.lowerCase s = "any" then [] else [.notActive, .inactive]
  | .nodeActive _ => [.notActive, .inactive]
  | .and cs => (cs.map (atoms name)).flatten
  | .or cs =>
    if activeOrInactive cs then [.notActive, .inactive] else (cs.map (atoms name)).flatten
  | .not c => atoms name c
  | .select link c | .fromEntity link c =>
    .link (link.columns.operand.ast .none) (selectName link.entity)
      (link.foreign.operand.ast .none) :: atoms (selectName link.entity) c
  | .implicit entity c => relationshipAtoms schema name entity ++ atoms (selectName entity) c

/-- The query records of the activity of nodes. -/
def activityNames : List String := ["select_not_active_nodes", "select_inactive_nodes"]

/-- Leaves that stand for themselves and subqueries on entities other than the activity of
nodes. -/
def plain (name : String) : Clause env → Bool
  | .leaf l =>
    match expandQueryNode env (.vec (schema.context name)
      [.str l.op, l.field.ast .none, l.value.ast .none]) with
    | .ok none => true
    | _ => false
  | .typeAny | .nodeActive _ => true
  | .nodeState s => ["active", "inactive", "any"].contains (env.lowerCase s)
  | .and cs | .or cs => (cs.map (plain name)).all id
  | .not c => plain name c
  | .select link c | .fromEntity link c =>
    !activityNames.contains (selectName link.entity) && plain (selectName link.entity) c
  | .implicit entity c =>
    (relationshipColumns schema name entity).isSome && !activityNames.contains (selectName entity)
      && !(removed c && isJunction c) && plain (selectName entity) c

/-- Nothing is compared twice. -/
structure Independent (name : String) (c : Clause env) : Prop where
  plain : plain schema name c = true
  nodup : (atoms schema name c).Nodup

/-! ## Two-valued readings -/

/-- The value of a junction of values: `b` when all are `b`. -/
def join (b : Bool) (xs : List Bool) : Bool := xs.all (· == b) == b

/-- The link of a subquery. -/
def linkValue (v : Valuation) (name entity : String) : Bool :=
  (relationshipAtoms schema name entity).all v

/-- The reading of a clause. -/
def asked (v : Valuation) (name : String) : Clause env → Bool
  | .leaf l => v (.compare name (l.image schema name))
  | .typeAny => reportType (schema.context name) ||
      v (.compare name (.made [.str "=", .str "type", .str "any"]))
  | .nodeState s =>
    if env.lowerCase s = "active" then !v .notActive
    else if env.lowerCase s = "inactive" then v .inactive && v .notActive
    else true
  | .nodeActive x => if x.truthy then !v .notActive else v .inactive && v .notActive
  | .and cs => join true (cs.map (asked v name))
  | .or cs => activeOrInactive cs || join false (cs.map (asked v name))
  | .not c => !asked v name c
  | .select link c | .fromEntity link c =>
    v (.link (link.columns.operand.ast .none) (selectName link.entity)
      (link.foreign.operand.ast .none)) && asked v (selectName link.entity) c
  | .implicit entity c => linkValue schema v name entity && asked v (selectName entity) c

/-- What is left of a clause that is kept; a dropped filter lets every row pass. -/
def left (v : Valuation) (name : String) : Clause env → Bool
  | .leaf l => v (.compare name (l.image schema name))
  | .typeAny => true
  | .nodeState s =>
    if env.lowerCase s = "active" then !v .notActive
    else if env.lowerCase s = "inactive" then v .inactive && v .notActive
    else true
  | .nodeActive x => if x.truthy then !v .notActive else v .inactive && v .notActive
  | .and cs => join true ((cs.filter fun c => !removed c).map (left v name))
  | .or cs => join false ((cs.filter fun c => !removed c).map (left v name))
  | .not c => !left v name c
  | .select link c | .fromEntity link c =>
    v (.link (link.columns.operand.ast .none) (selectName link.entity)
      (link.foreign.operand.ast .none)) && (removed c || left v (selectName link.entity) c)
  | .implicit entity c =>
    linkValue schema v name entity && (removed c || left v (selectName entity) c)

/-! ## Junctions of values -/

theorem join_eq_iff (b : Bool) (xs : List Bool) : join b xs = b ↔ ∀ x ∈ xs, x = b := by
  cases h : xs.all (· == b) with
  | true =>
    have hall : ∀ x ∈ xs, x = b := by simpa using h
    simpa [join, h] using hall
  | false => cases b <;> simp_all [join]

theorem join_eq_not_iff (b : Bool) (xs : List Bool) : join b xs = !b ↔ ∃ x ∈ xs, x = !b := by
  have h := join_eq_iff b xs
  cases hj : join b xs <;> cases b <;> simp_all

theorem all_map_ofBool {α : Type} (f : α → Bool) (xs : List α) :
    Truth.all (xs.map fun x => .ofBool (f x)) = .ofBool (join true (xs.map f)) := by
  rw [Truth.all_ofBool]
  simp [join, Function.comp_def, List.all_map]

theorem any_map_ofBool {α : Type} (f : α → Bool) (xs : List α) :
    Truth.any (xs.map fun x => .ofBool (f x)) = .ofBool (join false (xs.map f)) := by
  rw [Truth.any_ofBool]
  congr 1
  induction xs with
  | nil => rfl
  | cons x xs ih => cases h : f x <;> simp_all [join]

/-- The valuation of a clause does not look beyond its atoms. -/
theorem mem_atoms_or (name : String) (cs : List (Clause env)) (c : Clause env) (hc : c ∈ cs)
    (a : Atom) (ha : a ∈ atoms schema name c) : a ∈ atoms schema name (.or cs) := by
  rw [atoms]
  split
  · next hform =>
    unfold activeOrInactive at hform
    split at hform
    · simp only [List.mem_cons, List.not_mem_nil, or_false] at hc
      rcases hc with rfl | rfl <;> simpa [atoms] using ha
    · cases hform
  · exact List.mem_flatten.mpr ⟨_, List.mem_map.mpr ⟨c, hc, rfl⟩, ha⟩

theorem mem_atoms_and (name : String) (cs : List (Clause env)) (c : Clause env) (hc : c ∈ cs)
    (a : Atom) (ha : a ∈ atoms schema name c) : a ∈ atoms schema name (.and cs) := by
  rw [atoms]
  exact List.mem_flatten.mpr ⟨_, List.mem_map.mpr ⟨c, hc, rfl⟩, ha⟩

theorem linkValue_congr (v w : Valuation) (name entity : String)
    (h : ∀ a ∈ relationshipAtoms schema name entity, v a = w a) :
    linkValue schema v name entity = linkValue schema w name entity := by
  rw [linkValue, linkValue, Bool.eq_iff_iff, List.all_eq_true, List.all_eq_true]
  exact forall₂_congr fun a ha => by rw [h a ha]

theorem asked_congr (c : Clause env) (name : String) (v w : Valuation)
    (h : ∀ a ∈ atoms schema name c, v a = w a) :
    asked schema v name c = asked schema w name c := by
  induction c using Clause.ind generalizing name with
  | leaf l => simpa [asked, atoms] using h
  | typeAny => rw [asked, asked, h _ (by simp [atoms])]
  | nodeState s =>
    rw [asked, asked]
    by_cases hany : env.lowerCase s = "any"
    · simp [hany]
    · rw [h .notActive (by simp [atoms, hany]), h .inactive (by simp [atoms, hany])]
  | nodeActive x =>
    rw [asked, asked, h .notActive (by simp [atoms]), h .inactive (by simp [atoms])]
  | and cs ih =>
    rw [asked, asked]
    exact congrArg _ (List.map_congr_left fun c hc =>
      ih c hc name fun a ha => h a (mem_atoms_and schema name cs c hc a ha))
  | or cs ih =>
    rw [asked, asked]
    exact congrArg (activeOrInactive cs || join false ·) (List.map_congr_left fun c hc =>
      ih c hc name fun a ha => h a (mem_atoms_or schema name cs c hc a ha))
  | not c ih =>
    rw [atoms] at h
    rw [asked, asked, ih name h]
  | select link c ih | fromEntity link c ih =>
    rw [atoms, List.forall_mem_cons] at h
    rw [asked, asked, h.1, ih _ h.2]
  | implicit entity c ih =>
    rw [atoms, List.forall_mem_append] at h
    rw [asked, asked, linkValue_congr schema v w name entity h.1, ih _ h.2]

theorem left_congr (c : Clause env) (name : String) (v w : Valuation)
    (h : ∀ a ∈ atoms schema name c, v a = w a) :
    left schema v name c = left schema w name c := by
  induction c using Clause.ind generalizing name with
  | leaf l => simpa [left, atoms] using h
  | typeAny => rw [left, left]
  | nodeState s =>
    rw [left, left]
    by_cases hany : env.lowerCase s = "any"
    · simp [hany]
    · rw [h .notActive (by simp [atoms, hany]), h .inactive (by simp [atoms, hany])]
  | nodeActive x =>
    rw [left, left, h .notActive (by simp [atoms]), h .inactive (by simp [atoms])]
  | and cs ih =>
    rw [left, left]
    exact congrArg _ (List.map_congr_left fun c hc =>
      ih c (List.mem_filter.mp hc).1 name fun a ha =>
        h a (mem_atoms_and schema name cs c (List.mem_filter.mp hc).1 a ha))
  | or cs ih =>
    rw [left, left]
    exact congrArg _ (List.map_congr_left fun c hc =>
      ih c (List.mem_filter.mp hc).1 name fun a ha =>
        h a (mem_atoms_or schema name cs c (List.mem_filter.mp hc).1 a ha))
  | not c ih =>
    rw [atoms] at h
    rw [left, left, ih name h]
  | select link c ih | fromEntity link c ih =>
    rw [atoms, List.forall_mem_cons] at h
    rw [left, left, h.1, ih _ h.2]
  | implicit entity c ih =>
    rw [atoms, List.forall_mem_append] at h
    rw [left, left, linkValue_congr schema v w name entity h.1, ih _ h.2]


/-! ## The world of a valuation -/

/-- One row of each query record, compared as the valuation says. -/
def world (v : Valuation) : World Unit where
  compare name comparison _ := .ofBool (v (.compare name comparison))
  rows _ := [()]
  equal columns name foreign _ _ :=
    if name = "select_not_active_nodes" then .ofBool (v .notActive)
    else if name = "select_inactive_nodes" then .ofBool (v .inactive && v .notActive)
    else .ofBool (v (.link columns name foreign))

theorem within_world (v : Valuation) (columns : Ast) (name : String) (foreign : Ast)
    (filter : Unit → Truth) (r : Unit) :
    (world v).within columns name foreign filter r =
      if filter () = .yes then (world v).equal columns name foreign () () else .no := by
  cases r
  by_cases h : filter () = .yes
  · cases he : (world v).equal columns name foreign () () <;>
      simp [World.within, world, h] <;> simp_all [world]
  · simp [World.within, world, h]

theorem inNotActive_world (v : Valuation) (r : Unit) :
    (world v).inNotActive r = .ofBool (v .notActive) := by
  rw [World.inNotActive, within_world]
  simp [world]

theorem inInactive_world (v : Valuation) (r : Unit) :
    (world v).inInactive r = .ofBool (v .inactive && v .notActive) := by
  rw [World.inInactive, within_world]
  simp [world]

theorem within_link (v : Valuation) (columns : Ast) (name : String) (foreign : Ast)
    (filter : Unit → Truth) (b : Bool) (hname : activityNames.contains name = false)
    (hfilter : filter () = .ofBool b) :
    (world v).within columns name foreign filter () =
      .ofBool (v (.link columns name foreign) && b) := by
  have hne : name ≠ "select_not_active_nodes" ∧ name ≠ "select_inactive_nodes" := by
    simpa [activityNames] using hname
  rw [within_world, hfilter]
  cases b <;> simp [world, hne]

theorem relationshipReading_world (v : Valuation) (name entity : String)
    (filter : Unit → Truth) (b : Bool)
    (hrel : (relationshipColumns schema name entity).isSome = true)
    (hname : activityNames.contains (selectName entity) = false)
    (hfilter : filter () = .ofBool b) :
    relationshipReading schema (world v) name entity filter () =
      .ofBool (linkValue schema v name entity && b) := by
  obtain ⟨columns, hcolumns⟩ := Option.isSome_iff_exists.mp hrel
  simp [relationshipReading, linkValue, relationshipAtoms, hcolumns,
    within_link v _ _ _ filter b hname hfilter]

theorem combine_other (op : String) (ts : List Truth) (other : Truth)
    (hop : op ≠ "and" ∧ op ≠ "or" ∧ op ≠ "not") : combine blank op ts other = other := by
  simp [combine, hop]

theorem membership_operand {Row : Type} (W : World Row) (name : String) (field : Ast)
    (value : Operand) (r : Row) :
    membership blank W name [field, value.ast .none] r =
      W.compare name (.made [.str "in", field, value.ast .none]) r := by
  match value with
  | .one _ | .array _ | .many [] => rfl
  | .many [v] | .many [v, _] | .many [v, _, _] | .many (v :: _ :: _ :: _ :: _) =>
    cases v <;> rfl

theorem Leaf.meaning_image (l : Leaf env) (name : String)
    (hplain : plain schema name (.leaf l) = true) (v : Valuation) :
    meaning blank (world v) name (l.image schema name) () =
      .ofBool (v (.compare name (l.image schema name))) := by
  have himage : l.image schema name = .made [.str l.op, l.field.ast .none, l.value.ast .none] := by
    rw [plain] at hplain
    unfold Leaf.image
    split at hplain
    · next h => rw [h]
    · cases hplain
  have hop : l.op ≠ "and" ∧ l.op ≠ "or" ∧ l.op ≠ "not" := by
    have h : ∀ op ∈ leafOperators, op ≠ "and" ∧ op ≠ "or" ∧ op ≠ "not" := by decide
    exact h l.op l.op_mem
  have hmember := membership_operand blank (world v) name (l.field.ast .none) l.value ()
  rw [himage, meaning, combine_other blank l.op _ _ hop, hmember]
  split
  · next h => rw [h]; rfl
  · rfl

theorem plain_operand (name : String) (cs : List (Clause env)) (c : Clause env)
    (h : (cs.map (plain schema name)).all id = true) (hc : c ∈ cs) : plain schema name c = true := by
  simpa using List.forall_mem_map.mp (List.all_eq_true.mp h) c hc

theorem reading_world (v : Valuation) (c : Clause env) (name : String)
    (hplain : plain schema name c = true) :
    reading schema blank (world v) name c () = .ofBool (asked schema v name c) := by
  induction c using Clause.ind generalizing name with
  | leaf l => rw [reading, asked]; exact l.meaning_image schema blank name hplain v
  | typeAny =>
    rw [reading, asked]
    cases reportType (schema.context name) <;> simp [world]
  | nodeState s =>
    rw [plain] at hplain
    have hs : env.lowerCase s = "active" ∨ env.lowerCase s = "inactive" ∨
        env.lowerCase s = "any" := by simpa using hplain
    rw [reading, asked]
    rcases hs with hs | hs | hs <;> simp [hs, inNotActive_world, inInactive_world]
  | nodeActive x =>
    rw [reading, asked]
    split <;> simp [inNotActive_world, inInactive_world]
  | and cs ih =>
    rw [plain] at hplain
    rw [reading, asked, ← all_map_ofBool]
    congr 1
    exact List.map_congr_left fun c hc => ih c hc name (plain_operand schema name cs c hplain hc)
  | or cs ih =>
    rw [plain] at hplain
    rw [reading, asked]
    split
    · next hform => rw [hform]; rfl
    · next hform =>
      have hform : activeOrInactive cs = false := by simpa using hform
      rw [hform, Bool.false_or, ← any_map_ofBool]
      congr 1
      exact List.map_congr_left fun c hc => ih c hc name (plain_operand schema name cs c hplain hc)
  | not c ih =>
    rw [plain] at hplain
    rw [reading, asked, ih name hplain, Truth.not_ofBool]
  | select link c ih | fromEntity link c ih =>
    rw [plain, Bool.and_eq_true, Bool.not_eq_true'] at hplain
    rw [reading, asked]
    exact within_link v _ _ _ _ _ hplain.1 (ih _ hplain.2)
  | implicit entity c ih =>
    rw [plain] at hplain
    simp only [Bool.and_eq_true, Bool.not_eq_true'] at hplain
    rw [reading, asked]
    exact relationshipReading_world schema v name entity _ _ hplain.1.1.1 hplain.1.1.2
      (ih _ hplain.2)

/-- The filter of a subquery, in the world of a valuation. -/
theorem filterTruth_world (v : Valuation) (c : Clause env) (name : String)
    (ih : removed c = false →
      meaning blank (world v) name (c.image schema name) () = .ofBool (left schema v name c)) :
    filterTruth (meanings blank (world v) name (keep [c.image schema name]) ()) =
      .ofBool (removed c || left schema v name c) := by
  have himage := removable_image schema c name
  cases hr : removed c with
  | true => simp [keep, himage, hr, meanings, filterTruth]
  | false => simp [keep, himage, hr, meanings, filterTruth, ih hr]

theorem meaning_world (v : Valuation) (c : Clause env) (name : String)
    (hplain : plain schema name c = true) (hkept : removed c = false) :
    meaning blank (world v) name (c.image schema name) () = .ofBool (left schema v name c) := by
  induction c using Clause.ind generalizing name with
  | leaf l => rw [Clause.image, left]; exact l.meaning_image schema blank name hplain v
  | typeAny => simp [removed] at hkept
  | nodeState s =>
    rw [removed] at hkept
    rw [Clause.image, left]
    by_cases hactive : env.lowerCase s = "active"
    · simp [hactive, meaning_notActive, inNotActive_world]
    · have hinactive : env.lowerCase s = "inactive" := by simpa [hactive] using hkept
      simp [hinactive, meaning_inactive, inInactive_world]
  | nodeActive x =>
    rw [Clause.image, left]
    split <;> simp [meaning_notActive, meaning_inactive, inNotActive_world, inInactive_world]
  | and cs ih =>
    rw [plain] at hplain
    rw [removed] at hkept
    rw [Clause.image, left, ← all_map_ofBool,
      meaning_junction schema blank (world v) name "and" cs () .all (.inl ⟨rfl, rfl⟩) hkept]
    congr 1
    refine List.map_congr_left fun c hc => ?_
    obtain ⟨hc, hr⟩ := List.mem_filter.mp hc
    exact ih c hc name (plain_operand schema name cs c hplain hc) (by simpa using hr)
  | or cs ih =>
    rw [plain] at hplain
    rw [removed] at hkept
    rw [Clause.image, left, ← any_map_ofBool,
      meaning_junction schema blank (world v) name "or" cs () .any (.inr ⟨rfl, rfl⟩) hkept]
    congr 1
    refine List.map_congr_left fun c hc => ?_
    obtain ⟨hc, hr⟩ := List.mem_filter.mp hc
    exact ih c hc name (plain_operand schema name cs c hplain hc) (by simpa using hr)
  | not c ih =>
    rw [plain] at hplain
    rw [removed] at hkept
    have hr := removable_image schema c name
    rw [Clause.image, left]
    simp [keep, hr, hkept, meaning, meanings, combine, ih name hplain hkept]
  | select link c ih =>
    rw [plain, Bool.and_eq_true, Bool.not_eq_true'] at hplain
    rw [Clause.image, left, meaning_select]
    exact within_link v _ _ _ _ _ hplain.1 (filterTruth_world schema blank v c _ (ih _ hplain.2))
  | fromEntity link c ih =>
    rw [plain, Bool.and_eq_true, Bool.not_eq_true'] at hplain
    rw [Clause.image, left, meaning_from]
    exact within_link v _ _ _ _ _ hplain.1 (filterTruth_world schema blank v c _ (ih _ hplain.2))
  | implicit entity c ih =>
    rw [plain] at hplain
    simp only [Bool.and_eq_true, Bool.not_eq_true'] at hplain
    obtain ⟨⟨⟨hrel, hname⟩, hjunction⟩, hplain⟩ := hplain
    rw [Clause.image, left, meaning_relationshipImage]
    refine relationshipReading_world schema v name entity _ _ hrel hname ?_
    cases hr : removed c with
    | true =>
      have hj : isJunction c = false := by simpa [hr] using hjunction
      simp [meaning_of_removed schema blank (world v) c _ hr, hj]
    | false => rw [ih _ hplain hr, Bool.false_or]

/-! ## Independent clauses take any value -/

/-- Valuations of clauses that have no atom in common make one valuation. -/
theorem exists_joint (name : String) (cs : List (Clause env))
    (hnodup : (cs.map (atoms schema name)).flatten.Nodup) (P : Clause env → Valuation → Prop)
    (hlocal : ∀ c ∈ cs, ∀ v w, (∀ a ∈ atoms schema name c, v a = w a) → P c v → P c w)
    (h : ∀ c ∈ cs, ∃ v, P c v) : ∃ v, ∀ c ∈ cs, P c v := by
  classical
  induction cs with
  | nil => exact ⟨fun _ => false, nofun⟩
  | cons c cs ih =>
    rw [List.map_cons, List.flatten_cons, List.nodup_append] at hnodup
    obtain ⟨-, hnodup, hdisjoint⟩ := hnodup
    obtain ⟨v, hv⟩ := ih hnodup (fun d hd => hlocal d (List.mem_cons_of_mem _ hd))
      fun d hd => h d (List.mem_cons_of_mem _ hd)
    obtain ⟨w, hw⟩ := h c List.mem_cons_self
    refine ⟨fun a => if a ∈ atoms schema name c then w a else v a,
      List.forall_mem_cons.mpr ⟨?_, fun d hd => ?_⟩⟩
    · exact hlocal c List.mem_cons_self w _ (fun a ha => by rw [if_pos ha]) hw
    · refine hlocal d (List.mem_cons_of_mem _ hd) v _ (fun a ha => ?_) (hv d hd)
      have hmem : a ∈ (cs.map (atoms schema name)).flatten :=
        List.mem_flatten.mpr ⟨_, List.mem_map.mpr ⟨d, hd, rfl⟩, ha⟩
      rw [if_neg fun hc => hdisjoint a hc a hmem rfl]

theorem nodup_operand (name : String) (cs : List (Clause env)) (c : Clause env) (hc : c ∈ cs)
    (h : (cs.map (atoms schema name)).flatten.Nodup) : (atoms schema name c).Nodup :=
  (List.nodup_flatten.mp h).1 _ (List.mem_map.mpr ⟨c, hc, rfl⟩)

/-- The link of a subquery can be set without touching its filter. -/
theorem exists_linked (a : Atom) (as : List Atom) (h : (a :: as).Nodup) (v : Valuation) (b : Bool) :
    ∃ w : Valuation, w a = b ∧ ∀ x ∈ as, v x = w x := by
  classical
  refine ⟨Function.update v a b, Function.update_self .., fun x hx => ?_⟩
  rw [Function.update_of_ne]
  rintro rfl
  exact (List.nodup_cons.mp h).1 hx

theorem asked_of_known (v : Valuation) (c : Clause env) (name : String) (b : Bool)
    (hplain : plain schema name c = true) (h : known schema name c = some b) :
    asked schema v name c = b := by
  have hreading := (reading_world schema .yes v c name hplain).symm.trans
    (reading_of_known schema .yes (world v) c name b h ())
  cases ha : asked schema v name c <;> cases b <;> simp_all [Truth.ofBool]

/-- The valuations under which every operand, or one of them, is as it should be. -/
theorem exists_join (name : String) (b b' : Bool) (cs : List (Clause env))
    (value : Valuation → Clause env → Bool)
    (hnodup : (cs.map (atoms schema name)).flatten.Nodup)
    (hlocal : ∀ c ∈ cs, ∀ v w, (∀ a ∈ atoms schema name c, v a = w a) → value v c = value w c)
    (hall : b' = b → ∀ c ∈ cs, ∃ v, value v c = b)
    (hone : b' = !b → ∃ c ∈ cs, ∃ v, value v c = !b) :
    ∃ v, join b (cs.map (value v)) = b' := by
  by_cases hb : b' = b
  · obtain ⟨v, hv⟩ := exists_joint schema name cs hnodup (fun c v => value v c = b)
      (fun c hc v w h hv => (hlocal c hc v w h).symm.trans hv) (hall hb)
    exact ⟨v, hb ▸ (join_eq_iff b _).mpr (List.forall_mem_map.mpr hv)⟩
  · have hb : b' = !b := by cases b <;> cases b' <;> simp_all
    obtain ⟨c, hc, v, hv⟩ := hone hb
    exact ⟨v, hb ▸ (join_eq_not_iff b _).mpr ⟨_, List.mem_map.mpr ⟨c, hc, rfl⟩, hv⟩⟩

/-- The operands of a disjunction of the active and the inactive nodes. -/
theorem eq_of_activeOrInactive (cs : List (Clause env)) (h : activeOrInactive cs = true) :
    ∃ b, cs = [.nodeActive (.bool b), .nodeActive (.bool !b)] := by
  unfold activeOrInactive at h
  split at h
  · next a b =>
    refine ⟨a, ?_⟩
    cases a <;> cases b <;> simp_all
  · cases h

theorem nodup_kept (name : String) (cs : List (Clause env))
    (h : (cs.map (atoms schema name)).flatten.Nodup) :
    ((cs.filter fun c => !removed c).map (atoms schema name)).flatten.Nodup := by
  obtain ⟨hnodup, hdisjoint⟩ := List.nodup_flatten.mp h
  have hsub := (List.filter_sublist (p := fun c => !removed c) (l := cs)).map (atoms schema name)
  exact List.nodup_flatten.mpr
    ⟨fun l hl => hnodup l (hsub.subset hl), hdisjoint.sublist hsub⟩

theorem exists_kept (cs : List (Clause env)) (h : (cs.map removed).all id = false) :
    ∃ c ∈ cs, removed c = false := by
  simpa using h

/-- The operands that are kept can be given any values. -/
theorem exists_left_junction (name : String) (b b' : Bool) (cs : List (Clause env))
    (hnodup : (cs.map (atoms schema name)).flatten.Nodup)
    (hkept : (cs.map removed).all id = false)
    (ih : ∀ c ∈ cs, removed c = false → ∀ b, ∃ v, left schema v name c = b) :
    ∃ v, join b ((cs.filter fun c => !removed c).map (left schema v name)) = b' := by
  have hmem (c : Clause env) : c ∈ cs.filter (fun c => !removed c) ↔ c ∈ cs ∧ removed c = false := by
    simp
  refine exists_join schema name b b' _ (fun v c => left schema v name c)
    (nodup_kept schema name cs hnodup) (fun c _ v w h => left_congr schema c name v w h)
    (fun _ c hc => ?_) (fun _ => ?_)
  · obtain ⟨hc, hr⟩ := (hmem c).mp hc
    exact ih c hc hr b
  · obtain ⟨c, hc, hr⟩ := exists_kept cs hkept
    exact ⟨c, (hmem c).mpr ⟨hc, hr⟩, ih c hc hr (!b)⟩

/-- A linked filter can be true and can be false. -/
theorem exists_linked_value (a : Atom) (as : List Atom) (h : (a :: as).Nodup)
    (f : Valuation → Bool) (hlocal : ∀ v w, (∀ x ∈ as, v x = w x) → f v = f w) (b : Bool)
    (hf : b = true → ∃ v, f v = true) : ∃ v : Valuation, (v a && f v) = b := by
  cases b with
  | false => exact ⟨fun _ => false, rfl⟩
  | true =>
    obtain ⟨v, hv⟩ := hf rfl
    obtain ⟨w, hw, hvw⟩ := exists_linked a as h v true
    exact ⟨w, by rw [hw, ← hlocal v w hvw, hv]; rfl⟩

theorem exists_relationshipAtom (name entity : String)
    (h : (relationshipColumns schema name entity).isSome = true) :
    ∃ a, relationshipAtoms schema name entity = [a] := by
  obtain ⟨columns, hcolumns⟩ := Option.isSome_iff_exists.mp h
  exact ⟨_, by rw [relationshipAtoms, hcolumns]⟩

theorem linkValue_eq (v : Valuation) (name entity : String) (a : Atom)
    (h : relationshipAtoms schema name entity = [a]) :
    linkValue schema v name entity = v a := by
  simp [linkValue, h]

/-- A clause that is kept can be true and can be false. -/
theorem exists_left (c : Clause env) (name : String) (b : Bool)
    (hplain : plain schema name c = true) (hnodup : (atoms schema name c).Nodup)
    (hkept : removed c = false) : ∃ v, left schema v name c = b := by
  induction c using Clause.ind generalizing name b with
  | leaf l => exact ⟨fun _ => b, by rw [left]⟩
  | typeAny => simp [removed] at hkept
  | nodeState s =>
    rw [removed] at hkept
    by_cases hactive : env.lowerCase s = "active"
    · exact ⟨fun _ => !b, by simp [left, hactive]⟩
    · have hinactive : env.lowerCase s = "inactive" := by simpa [hactive] using hkept
      exact ⟨fun _ => b, by simp [left, hinactive]⟩
  | nodeActive x =>
    cases hx : x.truthy with
    | true => exact ⟨fun _ => !b, by simp [left, hx]⟩
    | false => exact ⟨fun _ => b, by simp [left, hx]⟩
  | and cs ih =>
    rw [plain] at hplain
    rw [atoms] at hnodup
    rw [removed] at hkept
    simp only [left]
    exact exists_left_junction schema name true b cs hnodup hkept fun c hc hr b =>
      ih c hc name b (plain_operand schema name cs c hplain hc)
        (nodup_operand schema name cs c hc hnodup) hr
  | or cs ih =>
    rw [plain] at hplain
    rw [atoms] at hnodup
    rw [removed] at hkept
    cases hform : activeOrInactive cs with
    | true =>
      obtain ⟨a, rfl⟩ := eq_of_activeOrInactive cs hform
      cases b with
      | true =>
        exact ⟨fun _ => false, by cases a <;> simp [left, removed, join, Json.truthy]⟩
      | false =>
        exact ⟨onlyNotActive,
          by cases a <;> simp [left, removed, join, Json.truthy, onlyNotActive]⟩
    | false =>
      rw [hform] at hnodup
      simp only [left]
      exact exists_left_junction schema name false b cs hnodup hkept fun c hc hr b =>
        ih c hc name b (plain_operand schema name cs c hplain hc)
          (nodup_operand schema name cs c hc hnodup) hr
  | not c ih =>
    rw [plain] at hplain
    rw [atoms] at hnodup
    rw [removed] at hkept
    obtain ⟨v, hv⟩ := ih name (!b) hplain hnodup hkept
    exact ⟨v, by rw [left, hv, Bool.not_not]⟩
  | select link c ih | fromEntity link c ih =>
    rw [plain, Bool.and_eq_true] at hplain
    rw [atoms] at hnodup
    simp only [left]
    refine exists_linked_value _ _ hnodup (fun v => removed c || left schema v _ c)
      (fun v w h => by rw [left_congr schema c _ v w h]) b fun _ => ?_
    cases hr : removed c with
    | true => exact ⟨fun _ => true, rfl⟩
    | false => simpa using ih _ true hplain.2 (List.nodup_cons.mp hnodup).2 hr
  | implicit entity c ih =>
    rw [plain] at hplain
    simp only [Bool.and_eq_true] at hplain
    obtain ⟨a, ha⟩ := exists_relationshipAtom schema name entity hplain.1.1.1
    rw [atoms, ha] at hnodup
    simp only [left, linkValue_eq schema _ name entity a ha]
    refine exists_linked_value a _ hnodup (fun v => removed c || left schema v _ c)
      (fun v w h => by rw [left_congr schema c _ v w h]) b fun _ => ?_
    cases hr : removed c with
    | true => exact ⟨fun _ => true, rfl⟩
    | false => simpa using ih _ true hplain.2 (List.nodup_cons.mp hnodup).2 hr

/-- A clause that does not always read as the other value can read as this one. -/
theorem exists_asked_of_ne (c : Clause env) (name : String) (b : Bool)
    (hplain : plain schema name c = true) (hne : known schema name c ≠ some (!b))
    (ih : known schema name c = none → ∃ v, asked schema v name c = b) :
    ∃ v, asked schema v name c = b := by
  cases hk : known schema name c with
  | none => exact ih hk
  | some b' =>
    have hb : b' = b := by
      rw [hk] at hne
      cases b <;> cases b' <;> simp_all
    exact ⟨fun _ => true, asked_of_known schema _ c name b hplain (hb ▸ hk)⟩

theorem exists_asked_junction (name : String) (b b' : Bool) (cs : List (Clause env))
    (hplain : (cs.map (plain schema name)).all id = true)
    (hnodup : (cs.map (atoms schema name)).flatten.Nodup)
    (hnone : ∀ c ∈ cs, known schema name c ≠ some (!b))
    (hone : ∃ c ∈ cs, known schema name c ≠ some b)
    (ih : ∀ c ∈ cs, ∀ b, known schema name c = none → ∃ v, asked schema v name c = b) :
    ∃ v, join b (cs.map (asked schema v name)) = b' := by
  refine exists_join schema name b b' cs (fun v c => asked schema v name c) hnodup
    (fun c _ v w h => asked_congr schema c name v w h) (fun _ c hc => ?_) (fun _ => ?_)
  · exact exists_asked_of_ne schema c name b (plain_operand schema name cs c hplain hc)
      (hnone c hc) (ih c hc b)
  · obtain ⟨c, hc, hne⟩ := hone
    exact ⟨c, hc, exists_asked_of_ne schema c name (!b) (plain_operand schema name cs c hplain hc)
      (by rwa [Bool.not_not]) (ih c hc (!b))⟩

theorem known_operands (name : String) (b : Bool) (cs : List (Clause env))
    (hno : (cs.map (known schema name)).contains (some (!b)) = false)
    (hall : (cs.map (known schema name)).all (· == some b) = false) :
    (∀ c ∈ cs, known schema name c ≠ some (!b)) ∧ ∃ c ∈ cs, known schema name c ≠ some b := by
  refine ⟨fun c hc hk => ?_, by simpa using hall⟩
  have hmem := List.contains_iff_mem.mpr (List.mem_map.mpr ⟨c, hc, hk⟩)
  rw [hno] at hmem
  cases hmem

/-- A clause that is not known reads as either value. -/
theorem exists_asked (c : Clause env) (name : String) (b : Bool)
    (hplain : plain schema name c = true) (hnodup : (atoms schema name c).Nodup)
    (hnone : known schema name c = none) : ∃ v, asked schema v name c = b := by
  induction c using Clause.ind generalizing name b with
  | leaf l => exact ⟨fun _ => b, by rw [asked]⟩
  | typeAny =>
    rw [known] at hnone
    split at hnone
    · cases hnone
    · next ht => exact ⟨fun _ => b, by simp [asked, ht]⟩
  | nodeState s =>
    rw [plain] at hplain
    rw [known] at hnone
    have hs : env.lowerCase s = "active" ∨ env.lowerCase s = "inactive" := by
      by_contra hne
      have hany : env.lowerCase s = "any" := by
        rw [not_or] at hne
        simpa [hne] using hplain
      rw [if_neg hne, if_pos hany] at hnone
      cases hnone
    rcases hs with hs | hs
    · exact ⟨fun _ => !b, by simp [asked, hs]⟩
    · exact ⟨fun _ => b, by simp [asked, hs]⟩
  | nodeActive x =>
    cases hx : x.truthy with
    | true => exact ⟨fun _ => !b, by simp [asked, hx]⟩
    | false => exact ⟨fun _ => b, by simp [asked, hx]⟩
  | and cs ih =>
    rw [plain] at hplain
    rw [atoms] at hnodup
    rw [known] at hnone
    split at hnone
    · cases hnone
    · next hno =>
      split at hnone
      · cases hnone
      · next hall =>
        obtain ⟨hnot, hone⟩ := known_operands schema name true cs (by simpa using hno)
          (by simpa using hall)
        simp only [asked]
        exact exists_asked_junction schema name true b cs hplain hnodup hnot hone
          fun c hc b => ih c hc name b (plain_operand schema name cs c hplain hc)
            (nodup_operand schema name cs c hc hnodup)
  | or cs ih =>
    rw [plain] at hplain
    rw [atoms] at hnodup
    rw [known] at hnone
    split at hnone
    · cases hnone
    · next hform =>
      rw [if_neg hform] at hnodup
      split at hnone
      · cases hnone
      · next hno =>
        split at hnone
        · cases hnone
        · next hall =>
          obtain ⟨hnot, hone⟩ := known_operands schema name false cs (by simpa using hno)
            (by simpa using hall)
          have hform : activeOrInactive cs = false := by simpa using hform
          simp only [asked, hform, Bool.false_or]
          exact exists_asked_junction schema name false b cs hplain hnodup hnot hone
            fun c hc b => ih c hc name b (plain_operand schema name cs c hplain hc)
              (nodup_operand schema name cs c hc hnodup)
  | not c ih =>
    rw [plain] at hplain
    rw [atoms] at hnodup
    rw [known, Option.map_eq_none_iff] at hnone
    obtain ⟨v, hv⟩ := ih name (!b) hplain hnodup hnone
    exact ⟨v, by rw [asked, hv, Bool.not_not]⟩
  | select link c ih | fromEntity link c ih =>
    rw [plain, Bool.and_eq_true] at hplain
    rw [atoms] at hnodup
    rw [known] at hnone
    split at hnone
    · cases hnone
    · next hk =>
      simp only [asked]
      refine exists_linked_value _ _ hnodup (fun v => asked schema v _ c)
        (fun v w h => asked_congr schema c _ v w h) b fun _ => ?_
      exact exists_asked_of_ne schema c _ true hplain.2 hk
        (ih _ true hplain.2 (List.nodup_cons.mp hnodup).2)
  | implicit entity c ih =>
    rw [plain] at hplain
    simp only [Bool.and_eq_true] at hplain
    obtain ⟨a, ha⟩ := exists_relationshipAtom schema name entity hplain.1.1.1
    rw [atoms, ha] at hnodup
    rw [known] at hnone
    split at hnone
    · cases hnone
    · next hk =>
      simp only [asked, linkValue_eq schema _ name entity a ha]
      refine exists_linked_value a _ hnodup (fun v => asked schema v _ c)
        (fun v w h => asked_congr schema c _ v w h) b fun _ => ?_
      exact exists_asked_of_ne schema c _ true hplain.2 (fun h => hk ⟨hplain.1.1.1, h⟩)
        (ih _ true hplain.2 (List.nodup_cons.mp hnodup).2)

/-! ## An unsound clause is told from its expansion -/

theorem mem_kept_map (v : Valuation) (name : String) (cs : List (Clause env)) (c : Clause env)
    (hc : c ∈ cs) (hr : removed c = false) :
    left schema v name c ∈ (cs.filter fun c => !removed c).map (left schema v name) :=
  List.mem_map.mpr ⟨c, List.mem_filter.mpr ⟨hc, by simp [hr]⟩, rfl⟩

/-- An operand that reads otherwise while what is left of every operand is as it should be. -/
theorem exists_different_of_asked (name : String) (b : Bool) (cs : List (Clause env))
    (hnodup : (cs.map (atoms schema name)).flatten.Nodup)
    (hleft : ∀ c ∈ cs, removed c = false → ∃ v, left schema v name c = b)
    (hone : ∃ c ∈ cs, ∃ v, (removed c = false → left schema v name c = b) ∧
      asked schema v name c = !b) :
    ∃ v, join b ((cs.filter fun c => !removed c).map (left schema v name)) ≠
      join b (cs.map (asked schema v name)) := by
  let other (c : Clause env) : Prop :=
    ∃ v, (removed c = false → left schema v name c = b) ∧ asked schema v name c = !b
  obtain ⟨v, hv⟩ := exists_joint schema name cs hnodup
    (fun c v => (removed c = false → left schema v name c = b) ∧
      (other c → asked schema v name c = !b))
    (fun c _ v w h hv => by
      rwa [← left_congr schema c name v w h, ← asked_congr schema c name v w h])
    (fun c hc => by
      by_cases ho : other c
      · exact ho.imp fun v hv => ⟨hv.1, fun _ => hv.2⟩
      · cases hr : removed c with
        | true => exact ⟨fun _ => true, nofun, fun h => absurd h ho⟩
        | false => exact (hleft c hc hr).imp fun v hv => ⟨fun _ => hv, fun h => absurd h ho⟩)
  obtain ⟨c, hc, ho⟩ := hone
  have hjoin : join b ((cs.filter fun c => !removed c).map (left schema v name)) = b := by
    refine (join_eq_iff b _).mpr (List.forall_mem_map.mpr fun d hd => ?_)
    obtain ⟨hd, hr⟩ := List.mem_filter.mp hd
    exact (hv d hd).1 (by simpa using hr)
  have hasked : join b (cs.map (asked schema v name)) = !b :=
    (join_eq_not_iff b _).mpr ⟨_, List.mem_map.mpr ⟨c, hc, rfl⟩, (hv c hc).2 ho⟩
  exact ⟨v, by rw [hjoin, hasked]; cases b <;> decide⟩

/-- What is left of an operand is otherwise while every operand reads as it should. -/
theorem exists_different_of_left (name : String) (b : Bool) (cs : List (Clause env))
    (hnodup : (cs.map (atoms schema name)).flatten.Nodup)
    (hasked : ∀ c ∈ cs, ∃ v, asked schema v name c = b)
    (hone : ∃ c ∈ cs, removed c = false ∧ ∃ v, left schema v name c = (!b) ∧
      asked schema v name c = b) :
    ∃ v, join b ((cs.filter fun c => !removed c).map (left schema v name)) ≠
      join b (cs.map (asked schema v name)) := by
  let other (c : Clause env) : Prop :=
    ∃ v, left schema v name c = (!b) ∧ asked schema v name c = b
  obtain ⟨v, hv⟩ := exists_joint schema name cs hnodup
    (fun c v => asked schema v name c = b ∧ (other c → left schema v name c = !b))
    (fun c _ v w h hv => by
      rwa [← left_congr schema c name v w h, ← asked_congr schema c name v w h])
    (fun c hc => by
      by_cases ho : other c
      · exact ho.imp fun v hv => ⟨hv.2, fun _ => hv.1⟩
      · exact (hasked c hc).imp fun v hv => ⟨hv, fun h => absurd h ho⟩)
  obtain ⟨c, hc, hr, ho⟩ := hone
  have hjoin : join b (cs.map (asked schema v name)) = b :=
    (join_eq_iff b _).mpr (List.forall_mem_map.mpr fun d hd => (hv d hd).1)
  have hleft : join b ((cs.filter fun c => !removed c).map (left schema v name)) = !b :=
    (join_eq_not_iff b _).mpr ⟨_, mem_kept_map schema v name cs c hc hr, (hv c hc).2 ho⟩
  exact ⟨v, by rw [hjoin, hleft]; cases b <;> decide⟩

theorem exists_different_junction (name : String) (b : Bool) (cs : List (Clause env))
    (hplain : (cs.map (plain schema name)).all id = true)
    (hnodup : (cs.map (atoms schema name)).flatten.Nodup)
    (hunsound : ∃ c ∈ cs, (if removed c then known schema name c == some b
      else sound schema blank name c) = false)
    (ih : ∀ c ∈ cs, removed c = false → sound schema blank name c = false →
      ∃ v, left schema v name c ≠ asked schema v name c) :
    ∃ v, join b ((cs.filter fun c => !removed c).map (left schema v name)) ≠
      join b (cs.map (asked schema v name)) := by
  have hplain' (c : Clause env) (hc : c ∈ cs) := plain_operand schema name cs c hplain hc
  have hnodup' (c : Clause env) (hc : c ∈ cs) := nodup_operand schema name cs c hc hnodup
  have hleft (c : Clause env) (hc : c ∈ cs) (hr : removed c = false) :=
    exists_left schema c name b (hplain' c hc) (hnodup' c hc) hr
  by_cases hone : ∃ c ∈ cs, ∃ v, (removed c = false → left schema v name c = b) ∧
      asked schema v name c = !b
  · exact exists_different_of_asked schema name b cs hnodup hleft hone
  · have hsame : ∀ c ∈ cs, ∀ v, (removed c = false → left schema v name c = b) →
        asked schema v name c = b := by
      intro c hc v hv
      by_contra hne
      exact hone ⟨c, hc, v, hv, by cases b <;> simpa using hne⟩
    refine exists_different_of_left schema name b cs hnodup (fun c hc => ?_) ?_
    · cases hr : removed c with
      | true => exact ⟨fun _ => true, hsame c hc _ (by simp [hr])⟩
      | false => exact (hleft c hc hr).imp fun v hv => hsame c hc v fun _ => hv
    · obtain ⟨c, hc, h⟩ := hunsound
      cases hr : removed c with
      | true =>
        obtain ⟨v, hv⟩ := exists_asked_of_ne schema c name (!b) (hplain' c hc)
          (by simpa [hr] using h)
          (exists_asked schema c name (!b) (hplain' c hc) (hnodup' c hc))
        exact absurd ⟨c, hc, v, by simp [hr], hv⟩ hone
      | false =>
        obtain ⟨v, hv⟩ := ih c hc hr (by simpa [hr] using h)
        refine ⟨c, hc, hr, v, ?_⟩
        have hne : left schema v name c ≠ b := fun hl => hv (hl.trans (hsame c hc v fun _ => hl).symm)
        cases hl : left schema v name c <;> cases ha : asked schema v name c <;> cases b <;>
          simp_all

theorem exists_map_false {α : Type} (f : α → Bool) (xs : List α)
    (h : (xs.map f).all id = false) : ∃ x ∈ xs, f x = false := by
  simpa using h

theorem exists_different_linked (a : Atom) (as : List Atom) (h : (a :: as).Nodup)
    (f g : Valuation → Bool) (hf : ∀ v w, (∀ x ∈ as, v x = w x) → f v = f w)
    (hg : ∀ v w, (∀ x ∈ as, v x = w x) → g v = g w) (hne : ∃ v, f v ≠ g v) :
    ∃ v : Valuation, (v a && f v) ≠ (v a && g v) := by
  obtain ⟨v, hv⟩ := hne
  obtain ⟨w, hw, hvw⟩ := exists_linked a as h v true
  exact ⟨w, by rw [hw, ← hf v w hvw, ← hg v w hvw]; simpa using hv⟩

/-- The filter of a subquery. -/
theorem exists_different_filter (c : Clause env) (name : String)
    (hplain : plain schema name c = true) (hnodup : (atoms schema name c).Nodup)
    (hunsound : (if removed c then known schema name c == some true
      else sound schema blank name c) = false)
    (ih : removed c = false → sound schema blank name c = false →
      ∃ v, left schema v name c ≠ asked schema v name c) :
    ∃ v, (removed c || left schema v name c) ≠ asked schema v name c := by
  cases hr : removed c with
  | true =>
    obtain ⟨v, hv⟩ := exists_asked_of_ne schema c name false hplain (by simpa [hr] using hunsound)
      (exists_asked schema c name false hplain hnodup)
    exact ⟨v, by simp [hv]⟩
  | false => simpa using ih hr (by simpa [hr] using hunsound)

/-- A clause that is kept and unsound is told from what is left of it. -/
theorem exists_different (c : Clause env) (name : String) (hplain : plain schema name c = true)
    (hnodup : (atoms schema name c).Nodup) (hkept : removed c = false)
    (hunsound : sound schema blank name c = false) :
    ∃ v, left schema v name c ≠ asked schema v name c := by
  induction c using Clause.ind generalizing name with
  | leaf | typeAny | nodeState | nodeActive => simp [sound] at hunsound
  | and cs ih =>
    rw [plain] at hplain
    rw [atoms] at hnodup
    rw [sound] at hunsound
    simp only [left, asked]
    refine exists_different_junction schema blank name true cs hplain hnodup
      (exists_map_false _ cs (by simpa using hunsound)) fun c hc hr hs => ?_
    exact ih c hc name (plain_operand schema name cs c hplain hc)
      (nodup_operand schema name cs c hc hnodup) hr hs
  | or cs ih =>
    rw [plain] at hplain
    rw [atoms] at hnodup
    rw [sound] at hunsound
    cases hform : activeOrInactive cs with
    | true =>
      obtain ⟨v, hv⟩ := exists_left schema (.or cs) name false (by rw [plain]; exact hplain)
        (by rw [atoms]; exact hnodup) hkept
      exact ⟨v, by simp [hv, asked, hform]⟩
    | false =>
      rw [hform] at hnodup hunsound
      simp only [left, asked, hform, Bool.false_or]
      refine exists_different_junction schema blank name false cs hplain hnodup
        (exists_map_false _ cs (by simpa using hunsound)) fun c hc hr hs => ?_
      exact ih c hc name (plain_operand schema name cs c hplain hc)
        (nodup_operand schema name cs c hc hnodup) hr hs
  | not c ih =>
    rw [plain] at hplain
    rw [atoms] at hnodup
    rw [removed] at hkept
    rw [sound] at hunsound
    obtain ⟨v, hv⟩ := ih name hplain hnodup hkept hunsound
    exact ⟨v, by simpa [left, asked] using hv⟩
  | select link c ih | fromEntity link c ih =>
    rw [plain, Bool.and_eq_true] at hplain
    rw [atoms] at hnodup
    rw [sound] at hunsound
    have hnodup' := (List.nodup_cons.mp hnodup).2
    simp only [left, asked]
    exact exists_different_linked _ _ hnodup (fun v => removed c || left schema v _ c)
      (fun v => asked schema v _ c) (fun v w h => by rw [left_congr schema c _ v w h])
      (fun v w h => asked_congr schema c _ v w h)
      (exists_different_filter schema blank c _ hplain.2 hnodup' hunsound
        (ih _ hplain.2 hnodup'))
  | implicit entity c ih =>
    rw [plain] at hplain
    simp only [Bool.and_eq_true, Bool.not_eq_true'] at hplain
    obtain ⟨⟨⟨hrel, -⟩, hjunction⟩, hplain⟩ := hplain
    obtain ⟨a, ha⟩ := exists_relationshipAtom schema name entity hrel
    rw [atoms, ha] at hnodup
    rw [sound] at hunsound
    have hnodup' := (List.nodup_cons.mp hnodup).2
    have hunsound : (if removed c then known schema (selectName entity) c == some true
        else sound schema blank (selectName entity) c) = false := by
      cases hr : removed c with
      | true =>
        have hj : isJunction c = false := by simpa [hr] using hjunction
        simpa [hr, passes, hj] using hunsound
      | false => simpa [hr] using hunsound
    simp only [left, asked, linkValue_eq schema _ name entity a ha]
    exact exists_different_linked a _ hnodup (fun v => removed c || left schema v _ c)
      (fun v => asked schema v _ c) (fun v w h => by rw [left_congr schema c _ v w h])
      (fun v w h => asked_congr schema c _ v w h)
      (exists_different_filter schema blank c _ hplain hnodup' hunsound (ih _ hplain hnodup'))

/-! ## The rows of a query -/

/-- The expanded query selects the rows that the query asks for, in every world in which
the nodes that became inactive within the purge ttl are not active. -/
def SelectsSameRows (name : String) (c : Clause env) (node : Ast) : Prop :=
  ∀ (Row : Type) (W : World Row), (∀ r, W.inInactive r = .yes → W.inNotActive r = .yes) →
    ∀ r, meaning blank W name node r = .yes ↔ reading schema blank W name c r = .yes

theorem sound_of_selectsSameRows (c : Clause env) (name : String)
    (hindependent : Independent schema name c)
    (h : SelectsSameRows schema blank name c (c.image schema name)) :
    soundFilter schema blank name c = true := by
  have hworld (v : Valuation) := h Unit (world v) fun r hr => by
    rw [inNotActive_world]
    rw [inInactive_world] at hr
    rw [Truth.ofBool_eq_yes, Bool.and_eq_true] at hr
    rw [hr.2, Truth.ofBool_true]
  have hread (v : Valuation) := reading_world schema blank v c name hindependent.plain
  unfold soundFilter
  cases hr : removed c with
  | true =>
    have hasked (v : Valuation) : asked schema v name c = passes blank c := by
      have hv := hworld v ()
      rw [removed_passes schema blank (world v) c name hr, hread v, Truth.ofBool_eq_yes,
        ← Bool.eq_iff_iff] at hv
      exact hv.symm
    rw [if_pos rfl, beq_iff_eq]
    by_contra hne
    obtain ⟨v, hv⟩ := exists_asked_of_ne schema c name (!passes blank c) hindependent.plain
      (by rwa [Bool.not_not])
      (exists_asked schema c name _ hindependent.plain hindependent.nodup)
    rw [hasked v] at hv
    exact absurd hv (by simp)
  | false =>
    by_contra hunsound
    obtain ⟨v, hv⟩ := exists_different schema blank c name hindependent.plain hindependent.nodup
      hr (by simpa using hunsound)
    have hrows := hworld v ()
    rw [hread v, meaning_world schema blank v c name hindependent.plain hr] at hrows
    rw [Truth.ofBool_eq_yes, Truth.ofBool_eq_yes, ← Bool.eq_iff_iff] at hrows
    exact hv hrows

/-! ## Queries on nodes -/

/-- Fields of one component, and lower case for ASCII. -/
def nodesEnv : Env where
  parseField s := .ok [.named s]
  parseField_plain _ _ := rfl
  factPaths _ := []
  lowerCase s := String.ofList (s.toList.map Char.toLower)
  serialize _ := ""
  text _ := ""

def nodesContext : Context := ⟨some "nodes", [("certname", ⟨.string, "certnames.certname"⟩)], []⟩

def nodesSchema : Schema where
  context name := if name = "select_nodes" then nodesContext else .none
  columns_plain name entity rel h := by
    split at h <;> simp [nodesContext, Context.none] at h

/-- `["=" "certname" "a"]` -/
def certnameIsA : Leaf nodesEnv where
  op := "="
  field := .one (.str "certname")
  value := .one (.str "a")
  op_mem := by decide
  field_still := trivial
  value_still := trivial
  not_nodeState := by simp
  not_nodeActive := by simp
  not_typeAny := by simp

/-- Any node, or the node `a`. -/
def anyOrA : Clause nodesEnv := .or [.leaf certnameIsA, .nodeState "any"]

/-- Any node, and the node `a`. -/
def anyAndA : Clause nodesEnv := .and [.leaf certnameIsA, .nodeState "any"]

end OpenVoxDB.Elision
