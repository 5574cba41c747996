import OpenVoxDB.ElisionExact
import OpenVoxDB.InventoryRedirect

/-!
# The nodes of a redirected subquery

A name that stands for itself makes the inventory compare one fact; every other
name makes it compare something else, or nothing.
-/

namespace OpenVoxDB.InventoryRedirect

open FactStorage FactRows FieldSyntax Jsonb QueryExpansion
open Plans (Step)
open Elision (nodesEnv)

variable {Digest : Type}

/-! ## The plan of a name -/

theorem optimizeUserQuery_factSubquery (env : Env) (column : NodeColumn) (name : String)
    (v : Scalar) : optimizeUserQuery env (factSubquery column name v) =
      inventorySubquery column ("facts." ++ name) v := by
  cases column <;> rfl

/-- A comparison of a fact expands, and its nodes are read from the inventory. -/
theorem optimizeUserQuery_fact (env : Env) (ctx : Context) (name : String) (v : Scalar) :
    ∃ expanded, expandQueryNode env
        (.vec ctx [.str "=", .made [.str "fact", .str name], .lit v.json]) = .ok (some expanded) ∧
      optimizeUserQuery env expanded =
        .made [.str "in", .str "certname", inventorySubquery .certname ("facts." ++ name) v] := by
  refine ⟨inFacts (.str name) (.made [.str "=", .str "value", .lit v.json]), ?_, rfl⟩
  cases v <;> rfl

theorem inventorySubquery_inj (column : NodeColumn) (field field' : String) (v : Scalar)
    (h : inventorySubquery column field v = inventorySubquery column field' v) :
    field = field' := by
  simpa [inventorySubquery] using h

theorem topField_facts (name : List Char) :
    topField ("facts".toList ++ '.' :: name) = some ("facts".toList, '.' :: name) := by
  simp [topField, isLetter, isDigit, componentEnd]

theorem parseField_facts (withMatches : Bool) (name : String) :
    parseField withMatches ("facts." ++ name) =
      (parseFieldComponents withMatches (name.toList.length + 1) ('.' :: name.toList)).map
        fun parts => .named "facts" :: parts := by
  have htext : ("facts." ++ name).toList = "facts".toList ++ '.' :: name.toList := by
    rw [String.toList_append]
    rfl
  have hname : String.ofList "facts".toList = "facts" := String.ofList_toList
  rw [parseField, htext, topField_facts]
  simp only [List.length_cons, hname]
  cases parseFieldComponents withMatches (name.toList.length + 1) ('.' :: name.toList) <;> rfl

/-- The comparison of a fact. -/
def nameTest (name : String) : PathTest :=
  if maybeIndex name then .atPath [name] else .contains [name]

theorem mungeText_of_noNul (s : String) (h : '\x00' ∉ s.toList) : mungeText s = s := by
  have hmap : s.toList.map (fun c => if c = '\x00' then '\ufffd' else c) = s.toList := by
    conv_rhs => rw [← List.map_id s.toList]
    refine List.map_congr_left fun c hc => if_neg ?_
    rintro rfl
    exact h hc
  rw [mungeText, hmap, String.ofList_toList]

theorem length_mungeText (s : String) : (mungeText s).toList.length = s.toList.length := by
  simp [mungeText]

theorem planPath_of_named (name : String) (h : Named name) :
    planPath ("facts." ++ name) = .ok (nameTest name) := by
  obtain ⟨hnul, hstands⟩ := h
  obtain ⟨part, hparts, hnot⟩ := parseFieldComponents_matches name.toList.length name.toList hstands
  have hindexed : isIndexed part = false := by
    cases part with
    | indexed base index => exact absurd rfl (hnot base index)
    | named _ => rfl
    | pattern _ => rfl
  have hplain := parseFieldComponents_named false name.toList.length name.toList hstands rfl
  have htext : sqlText name = .ok name := if_neg (by simpa using hnul)
  rw [planPath, parseField_facts, parseField_facts, hparts, hplain]
  simp only [Except.map, bind, Except.bind, List.tail_cons, List.any_cons, List.any_nil, hindexed,
    Bool.or_false, Bool.false_eq_true, if_false, List.filterMap_cons, List.filterMap_nil, partName,
    String.ofList_toList, nameTest]
  by_cases hindex : maybeIndex name = true
  · simp [hindex, htext, pure, Except.pure, bind, Except.bind]
  · simp [hindex, mungeText_of_noNul name hnul, pure, Except.pure]

theorem sqlText_eq_ok (s t : String) (h : sqlText s = .ok t) : t = s := by
  unfold sqlText at h
  split at h <;> cases h
  rfl

theorem mapM_sqlText (path texts : List String) (h : path.mapM sqlText = .ok texts) :
    texts = path := by
  induction path generalizing texts with
  | nil =>
    cases h
    rfl
  | cons s path ih =>
    rw [List.mapM_cons] at h
    obtain ⟨t, ht, h⟩ := (QueryExpansion.bind_eq_ok _ _ _).mp h
    obtain ⟨rest, hrest, h⟩ := (QueryExpansion.bind_eq_ok _ _ _).mp h
    cases h
    rw [sqlText_eq_ok s t ht, ih rest hrest]

/-- The plan of a name, case by case. -/
theorem planPath_cases (name : String) (test : PathTest)
    (h : planPath ("facts." ++ name) = .ok test) :
    ∃ parts, parseFieldComponents true (name.toList.length + 1) ('.' :: name.toList) = .ok parts ∧
      ((parts.any isIndexed = true ∧ ∃ first steps,
          elementSteps parts = .ok (.name first :: steps) ∧ test = .elements first steps) ∨
        ∃ plain, parseFieldComponents false (name.toList.length + 1) ('.' :: name.toList) =
            .ok plain ∧
          (test = .atPath (plain.filterMap partName) ∨
            test = .contains ((plain.filterMap partName).map mungeText))) := by
  rw [planPath, parseField_facts, parseField_facts] at h
  obtain ⟨all, hall, h⟩ := (QueryExpansion.bind_eq_ok _ _ _).mp h
  cases hparts : parseFieldComponents true (name.toList.length + 1) ('.' :: name.toList) with
  | error e => simp [hparts, Except.map] at hall
  | ok parts =>
    rw [hparts] at hall
    cases hall
    refine ⟨parts, rfl, ?_⟩
    by_cases hindexed : parts.any isIndexed = true
    · simp only [List.tail_cons, hindexed, if_true] at h
      obtain ⟨steps, hsteps, h⟩ := (QueryExpansion.bind_eq_ok _ _ _).mp h
      cases steps with
      | nil => cases h
      | cons step steps =>
        cases step with
        | index i => cases h
        | name first =>
          cases h
          exact .inl ⟨hindexed, _, _, hsteps, rfl⟩
    · simp only [List.tail_cons, hindexed] at h
      obtain ⟨all, hall, h⟩ := (QueryExpansion.bind_eq_ok _ _ _).mp h
      cases hplain : parseFieldComponents false (name.toList.length + 1) ('.' :: name.toList) with
      | error e => simp [hplain, Except.map] at hall
      | ok plain =>
        rw [hplain] at hall
        cases hall
        refine .inr ⟨plain, rfl, ?_⟩
        by_cases hindex : (plain.filterMap partName).any maybeIndex = true
        · simp only [List.tail_cons, hindex, if_true] at h
          obtain ⟨path, hpath, h⟩ := (QueryExpansion.bind_eq_ok _ _ _).mp h
          cases h
          rw [mapM_sqlText _ _ hpath]
          exact .inl rfl
        · simp only [List.tail_cons, hindex] at h
          cases h
          exact .inr rfl

/-! ## What a plan finds -/

theorem holds_nameTest (name : String) (facts : List (String × Json)) (v : Scalar) :
    (nameTest name).holds facts v = (facts.lookup name).any fun w => scalarEq w v.json := by
  unfold nameTest
  split
  · rw [PathTest.holds]
    cases hfound : facts.lookup name with
    | none => simp [getPath, hfound]
    | some w => simp [getPath, hfound]
  · rw [PathTest.holds, contains_nest_cons]
    simp [nest]

/-- Steps with an index are two at least. -/
theorem elementSteps_indexed (parts : List Part) (first : String) (steps : List Step)
    (hindexed : parts.any isIndexed = true)
    (h : elementSteps parts = .ok (.name first :: steps)) : steps ≠ [] := by
  cases parts with
  | nil => simp at hindexed
  | cons part parts =>
    cases part with
    | pattern rx => cases h
    | indexed name index =>
      rw [elementSteps] at h
      cases hrest : elementSteps parts with
      | error e => simp [hrest, Except.map] at h
      | ok rest =>
        rw [hrest] at h
        cases h
        exact List.cons_ne_nil _ _
    | named name =>
      rw [elementSteps] at h
      cases hrest : elementSteps parts with
      | error e => simp [hrest, Except.map] at h
      | ok rest =>
        rw [hrest] at h
        cases h
        rintro rfl
        cases parts with
        | nil => simp [isIndexed] at hindexed
        | cons part parts =>
          cases part <;> simp only [elementSteps] at hrest <;>
            cases hmore : elementSteps parts <;> simp [hmore, Except.map] at hrest

theorem getSteps_of_scalar (w : Scalar) (steps : List Step) (hne : steps ≠ []) :
    getSteps w.json steps = none := by
  cases steps with
  | nil => exact absurd rfl hne
  | cons step steps => cases w <;> cases step <;> rfl

/-- A map that has one fact, a scalar. -/
def OneFact (facts : List (String × Json)) (name : String) (w : Scalar) : Prop :=
  facts.lookup name = some w.json ∧ ∀ k, k ≠ name → facts.lookup k = none

theorem OneFact.eq_of_lookup {facts : List (String × Json)} {name : String} {w : Scalar}
    (h : OneFact facts name w) (k : String) (x : Json) (hk : facts.lookup k = some x) :
    k = name ∧ x = w.json := by
  by_cases hkn : k = name
  · subst hkn
    exact ⟨rfl, Option.some.inj (hk.symm.trans h.1)⟩
  · rw [h.2 k hkn] at hk
    cases hk

/-- Only a path of one step, the name, finds a scalar. -/
theorem path_of_holds {facts : List (String × Json)} {name : String} {w : Scalar}
    (h : OneFact facts name w) (path : List String) (v : Scalar)
    (hholds : (PathTest.contains path).holds facts v = true ∨
      (PathTest.atPath path).holds facts v = true) : path = [name] := by
  cases path with
  | nil =>
    rcases hholds with hholds | hholds <;> cases v <;>
      simp [PathTest.holds, nest, getPath, Scalar.json, contains, scalarEq] at hholds
  | cons p path =>
    cases hp : facts.lookup p with
    | none =>
      rcases hholds with hholds | hholds
      · rw [PathTest.holds, contains_nest_cons, hp] at hholds
        cases hholds
      · simp [PathTest.holds, getPath, hp] at hholds
    | some x =>
      obtain ⟨rfl, rfl⟩ := h.eq_of_lookup p x hp
      cases path with
      | nil => rfl
      | cons q path =>
        rcases hholds with hholds | hholds
        · rw [PathTest.holds, contains_nest_cons, hp] at hholds
          rw [Option.any_some, contains_nest_of_scalar] at hholds
          cases hholds
        · simp [PathTest.holds, getPath, hp, getPath_of_scalar] at hholds

theorem not_holds_elements {facts : List (String × Json)} {name : String} {w : Scalar}
    (h : OneFact facts name w) (first : String) (steps : List Step) (hne : steps ≠ [])
    (v : Scalar) : (PathTest.elements first steps).holds facts v = false := by
  rw [PathTest.holds, getSteps]
  cases hfirst : facts.lookup first with
  | none => rfl
  | some x =>
    obtain ⟨-, rfl⟩ := h.eq_of_lookup first x hfirst
    rw [Option.bind_some, getSteps_of_scalar w steps hne]
    rfl

/-- A name whose plan finds its only fact stands for itself. -/
theorem standsForItself_of_holds {facts : List (String × Json)} {name : String} {w : Scalar}
    (h : OneFact facts name w) (test : PathTest) (v : Scalar)
    (htest : planPath ("facts." ++ name) = .ok test) (hholds : test.holds facts v = true) :
    standsForItself name.toList = true := by
  obtain ⟨parts, hparts, hplan⟩ := planPath_cases name test htest
  rcases hplan with ⟨hindexed, first, steps, hsteps, rfl⟩ | ⟨plain, hplain, hpath⟩
  · rw [not_holds_elements h first steps (elementSteps_indexed parts first steps hindexed hsteps)]
      at hholds
    cases hholds
  · rcases hpath with rfl | rfl
    · exact standsForItself_of_parse name.toList.length name.toList plain parts name hplain
        (path_of_holds h _ v (.inr hholds)) rfl hparts
    · have hone := path_of_holds h _ v (.inl hholds)
      obtain ⟨x, hx, hmunge⟩ := List.map_eq_singleton_iff.mp hone
      refine standsForItself_of_parse name.toList.length name.toList plain parts x hplain hx ?_
        hparts
      rw [← hmunge, length_mungeText]

/-! ## The nodes -/

theorem exists_field (env : Env) (column : NodeColumn) (name : String) (v : Scalar)
    (field : String) (h : optimizeUserQuery env (factSubquery column name v) =
      inventorySubquery column field v) : field = "facts." ++ name := by
  rw [optimizeUserQuery_factSubquery] at h
  exact (inventorySubquery_inj column _ _ v h).symm

theorem oneFact_storeOf [Inhabited Digest] (name : String) (w : Scalar) (certname : String)
    (row : Factset Digest)
    (h : (storeOf name w.json : FactStore Digest).factsets[certname]? = some row) :
    OneFact (row.stable ∪ row.volatile).toList name w := by
  obtain ⟨hvolatile, hstable⟩ := factset_storeOf name w.json certname row h
  rw [hvolatile, Dict.union_empty, hstable]
  refine ⟨?_, fun k hk => ?_⟩
  · rw [Dict.lookup_toList, Std.ExtTreeMap.getElem?_insert_self]
  · rw [Dict.lookup_toList, Std.ExtTreeMap.getElem?_insert,
      if_neg fun he => hk (Std.LawfulEqCmp.eq_of_compare he).symm]
    simp

theorem settled_storeOf [Inhabited Digest] (name : String) (value : Json) (v : Scalar) :
    Settled (storeOf name value : FactStore Digest) name v := by
  intro certname row hrow w _ _ w' hw'
  rw [(factset_storeOf name value certname row hrow).1] at hw'
  simp at hw'

/-- A node with one fact, of the value that is asked for, decides the name. -/
theorem named_of_sameNodes [Inhabited Digest] (env : Env) (column : NodeColumn) (name : String)
    (v : Scalar)
    (h : SameNodes env (storeOf name (munge v).json : FactStore Digest) column name v) :
    Named name := by
  obtain ⟨field, hfield, nodes, nodes', hnodes, hnodes', hsame⟩ := h
  obtain rfl := exists_field env column name v field hfield
  obtain ⟨text, htext, hnodes⟩ := (QueryExpansion.bind_eq_ok _ _ _).mp hnodes
  obtain rfl := sqlText_eq_ok name text htext
  obtain ⟨test, htest, hnodes'⟩ := (QueryExpansion.bind_eq_ok _ _ _).mp hnodes'
  cases hnodes
  cases hnodes'
  have hnul : '\x00' ∉ text.toList := by
    unfold sqlText at htext
    split at htext
    · cases htext
    · next hnul => simpa using hnul
  have hmem := (hsame (column.ofRow "n" none)).mp <| List.mem_map.mpr
    ⟨_, List.mem_filter.mpr ⟨mem_sourceRows_storeOf text (munge v).json [], by simp⟩, rfl⟩
  obtain ⟨⟨certname, row⟩, hrow, -⟩ := List.mem_map.mp hmem
  obtain ⟨hrow, hholds⟩ := List.mem_filter.mp hrow
  have hone := oneFact_storeOf text (munge v) certname row
    (Std.ExtTreeMap.mem_toList_iff_getElem?_eq_some.mp hrow)
  exact ⟨hnul, standsForItself_of_holds hone test (munge v) htest hholds⟩

/-- The factset has the value in one of its maps. -/
def HasValue (row : Factset Digest) (name : String) (v : Scalar) : Prop :=
  ∃ w, (row.stable[name]? = some w ∨ row.volatile[name]? = some w) ∧
    scalarEq w (munge v).json = true

/-- The factset shows the value in its joined maps. -/
def ShowsValue (row : Factset Digest) (name : String) (v : Scalar) : Prop :=
  ∃ w, (row.stable ∪ row.volatile)[name]? = some w ∧ scalarEq w (munge v).json = true

theorem ShowsValue.hasValue {row : Factset Digest} {name : String} {v : Scalar}
    (h : ShowsValue row name v) : HasValue row name v := by
  obtain ⟨w, hw, heq⟩ := h
  refine ⟨w, ?_, heq⟩
  rw [Std.ExtTreeMap.getElem?_union] at hw
  rcases Option.or_eq_some_iff.mp hw with hw | ⟨-, hw⟩
  · exact .inr hw
  · exact .inl hw

theorem settled_iff (s : FactStore Digest) (name : String) (v : Scalar) :
    Settled s name v ↔ ∀ (certname : String) (row : Factset Digest),
      s.factsets[certname]? = some row → HasValue row name v → ShowsValue row name v := by
  constructor
  · rintro h certname row hrow ⟨w, hw, heq⟩
    cases hv : row.volatile[name]? with
    | some w' =>
      refine ⟨w', by rw [Std.ExtTreeMap.getElem?_union, hv]; rfl, ?_⟩
      rcases hw with hw | hw
      · exact h certname row hrow w hw heq w' hv
      · rw [hv] at hw
        cases hw
        exact heq
    | none =>
      have hw : row.stable[name]? = some w := hw.resolve_right (by simp [hv])
      exact ⟨w, by rw [Std.ExtTreeMap.getElem?_union, hv]; exact hw, heq⟩
  · intro h certname row hrow w hw heq w' hv
    obtain ⟨x, hx, hxeq⟩ := h certname row hrow ⟨w, .inl hw, heq⟩
    rw [Std.ExtTreeMap.getElem?_union, hv] at hx
    cases hx
    exact hxeq

theorem mem_unnestRow_iff (certname : String) (row : Factset Digest) (r : FactRow) :
    r ∈ unnestRow certname row ↔ ∃ key value, r = ⟨certname, row.environment, key, some value⟩ ∧
      (row.stable[key]? = some value ∨ row.volatile[key]? = some value) := by
  rw [unnestRow, List.mem_map]
  constructor
  · rintro ⟨⟨key, value⟩, hmem, rfl⟩
    refine ⟨key, value, rfl, ?_⟩
    rcases List.mem_append.mp hmem with hmem | hmem
    · exact .inl (Std.ExtTreeMap.mem_toList_iff_getElem?_eq_some.mp hmem)
    · exact .inr (Std.ExtTreeMap.mem_toList_iff_getElem?_eq_some.mp hmem)
  · rintro ⟨key, value, rfl, hentry⟩
    refine ⟨(key, value), List.mem_append.mpr ?_, rfl⟩
    rcases hentry with hentry | hentry
    · exact .inl (Std.ExtTreeMap.mem_toList_iff_getElem?_eq_some.mpr hentry)
    · exact .inr (Std.ExtTreeMap.mem_toList_iff_getElem?_eq_some.mpr hentry)

/-- The subquery on facts selects the nodes that have the value. -/
theorem factNodes_spec (s : FactStore Digest) (column : NodeColumn) (name : String) (v : Scalar)
    (hnul : '\x00' ∉ name.toList) : ∃ nodes, factNodes s column name v = .ok nodes ∧
      ∀ c, c ∈ nodes ↔ ∃ (certname : String) (row : Factset Digest),
        s.factsets[certname]? = some row ∧ HasValue row name v ∧
          column.ofRow certname row.environment = c := by
  have htext : sqlText name = .ok name := if_neg (by simpa using hnul)
  refine ⟨_, by rw [factNodes, htext]; rfl, fun c => ?_⟩
  rw [List.mem_map]
  constructor
  · rintro ⟨r, hr, rfl⟩
    obtain ⟨hr, hkeeps⟩ := List.mem_filter.mp hr
    obtain ⟨⟨certname, row⟩, hrow, hr⟩ := List.mem_flatMap.mp hr
    obtain ⟨key, value, rfl, hentry⟩ := (mem_unnestRow_iff certname row r).mp hr
    simp only [Bool.and_eq_true, decide_eq_true_eq, Option.any_some] at hkeeps
    obtain ⟨rfl, heq⟩ := hkeeps
    exact ⟨certname, row, Std.ExtTreeMap.mem_toList_iff_getElem?_eq_some.mp hrow,
      ⟨value, hentry, heq⟩, rfl⟩
  · rintro ⟨certname, row, hrow, ⟨value, hentry, heq⟩, rfl⟩
    refine ⟨⟨certname, row.environment, name, some value⟩, List.mem_filter.mpr ⟨?_, ?_⟩, rfl⟩
    · exact List.mem_flatMap.mpr ⟨(certname, row),
        Std.ExtTreeMap.mem_toList_iff_getElem?_eq_some.mpr hrow,
        (mem_unnestRow_iff certname row _).mpr ⟨name, value, rfl, hentry⟩⟩
    · simp [heq]

/-- The subquery on the inventory selects the nodes that show the value. -/
theorem inventoryNodes_spec (s : FactStore Digest) (column : NodeColumn) (name : String)
    (v : Scalar) (hname : Named name) :
    ∃ nodes, inventoryNodes s column ("facts." ++ name) v = .ok nodes ∧
      ∀ c, c ∈ nodes ↔ ∃ (certname : String) (row : Factset Digest),
        s.factsets[certname]? = some row ∧ ShowsValue row name v ∧
          column.ofRow certname row.environment = c := by
  have hshows : ∀ row : Factset Digest,
      (nameTest name).holds (row.stable ∪ row.volatile).toList (munge v) = true ↔
        ShowsValue row name v := by
    intro row
    rw [holds_nameTest, Dict.lookup_toList, Option.any_eq_true]
    rfl
  refine ⟨_, by rw [inventoryNodes, planPath_of_named name hname]; rfl, fun c => ?_⟩
  rw [List.mem_map]
  constructor
  · rintro ⟨⟨certname, row⟩, hrow, rfl⟩
    obtain ⟨hrow, hholds⟩ := List.mem_filter.mp hrow
    exact ⟨certname, row, Std.ExtTreeMap.mem_toList_iff_getElem?_eq_some.mp hrow,
      (hshows row).mp hholds, rfl⟩
  · rintro ⟨certname, row, hrow, hvalue, rfl⟩
    exact ⟨(certname, row), List.mem_filter.mpr
      ⟨Std.ExtTreeMap.mem_toList_iff_getElem?_eq_some.mpr hrow, (hshows row).mpr hvalue⟩, rfl⟩

/-- A name that stands for itself selects the same nodes where the nodes that have the value
are, by their column, nodes that show it. -/
theorem sameNodes_of_named (env : Env) (s : FactStore Digest) (column : NodeColumn)
    (name : String) (v : Scalar) (hname : Named name) :
    SameNodes env s column name v ↔
      ∀ (certname : String) (row : Factset Digest), s.factsets[certname]? = some row →
        HasValue row name v → ∃ (certname' : String) (row' : Factset Digest),
          s.factsets[certname']? = some row' ∧ ShowsValue row' name v ∧
            column.ofRow certname' row'.environment = column.ofRow certname row.environment := by
  obtain ⟨nodes, hnodes, hmem⟩ := factNodes_spec s column name v hname.1
  obtain ⟨nodes', hnodes', hmem'⟩ := inventoryNodes_spec s column name v hname
  constructor
  · rintro ⟨field, hfield, found, found', hfound, hfound', hsame⟩ certname row hrow hvalue
    obtain rfl := exists_field env column name v field hfield
    rw [hnodes] at hfound
    rw [hnodes'] at hfound'
    cases hfound
    cases hfound'
    exact (hmem' _).mp <| (hsame _).mp <| (hmem _).mpr ⟨certname, row, hrow, hvalue, rfl⟩
  · intro h
    refine ⟨_, optimizeUserQuery_factSubquery env column name v, nodes, nodes', hnodes, hnodes',
      fun c => ?_⟩
    rw [hmem, hmem']
    constructor
    · rintro ⟨certname, row, hrow, hvalue, rfl⟩
      exact h certname row hrow hvalue
    · rintro ⟨certname, row, hrow, hvalue, hc⟩
      exact ⟨certname, row, hrow, hvalue.hasValue, hc⟩

theorem sameNodes_of_settled (env : Env) (s : FactStore Digest) (column : NodeColumn)
    (name : String) (v : Scalar) (hname : Named name) (hs : Settled s name v) :
    SameNodes env s column name v := by
  rw [sameNodes_of_named env s column name v hname]
  exact fun certname row hrow hvalue =>
    ⟨certname, row, hrow, (settled_iff s name v).mp hs certname row hrow hvalue, rfl⟩

theorem sameNodes_certname (env : Env) (s : FactStore Digest) (name : String) (v : Scalar)
    (hname : Named name) : SameNodes env s .certname name v ↔ Settled s name v := by
  refine ⟨fun h => (settled_iff s name v).mpr fun certname row hrow hvalue => ?_,
    sameNodes_of_settled env s .certname name v hname⟩
  obtain ⟨certname', row', hrow', hshows, hc⟩ :=
    (sameNodes_of_named env s .certname name v hname).mp h certname row hrow hvalue
  obtain rfl : certname' = certname := Option.some.inj hc
  rw [hrow] at hrow'
  cases hrow'
  exact hshows

/-- The redirection is transparent on the databases whose maps agree exactly for the names that
stand for themselves, and for these on no other databases. -/
theorem redirect_iff [Inhabited Digest] (env : Env) (column : NodeColumn) (name : String)
    (v : Scalar) :
    ((∀ s : FactStore Digest, Settled s name v → SameNodes env s column name v) ↔ Named name) ∧
      (Named name → ∀ s : FactStore Digest, SameNodes env s .certname name v ↔ Settled s name v) :=
  ⟨⟨fun h => named_of_sameNodes env column name v (h _ (settled_storeOf name _ v)),
      fun hname s hs => sameNodes_of_settled env s column name v hname hs⟩,
    fun hname s => sameNodes_certname env s name v hname⟩

/-- A dot in a name makes the inventory look for a part of a fact. -/
theorem redirect_fails : ¬ SameNodes nodesEnv (storeOf "a.b" (.str "x") : FactStore (List Char))
    .certname "a.b" (.str "x") := by
  rintro ⟨field, hfield, nodes, nodes', hnodes, hnodes', hsame⟩
  obtain rfl := exists_field nodesEnv .certname "a.b" (.str "x") field hfield
  have hfound : factNodes (storeOf "a.b" (.str "x") : FactStore (List Char)) .certname "a.b"
      (.str "x") = .ok [some "n"] := by decide +kernel
  have hlost : inventoryNodes (storeOf "a.b" (.str "x") : FactStore (List Char)) .certname
      ("facts." ++ "a.b") (.str "x") = .ok [] := by decide +kernel
  rw [hfound] at hnodes
  rw [hlost] at hnodes'
  cases hnodes
  cases hnodes'
  exact absurd ((hsame (some "n")).mp List.mem_cons_self) List.not_mem_nil

end OpenVoxDB.InventoryRedirect
