import OpenVoxDB.AgentReports

/-!
# Where the default filter is the one that is due

The rewriting of a documented query is followed on the query itself. It puts in
every conjunct that is due, and so it is right where it fails nowhere and puts
in no other one.
-/

namespace OpenVoxDB.DefaultReports

theorem toOption_bind {ε α β : Type} (x : Except ε α) (f : α → Except ε β) :
    (x >>= f).toOption = x.toOption.bind fun a => (f a).toOption := by
  cases x <;> rfl

theorem toOption_eq_some {ε α : Type} (x : Except ε α) (a : α) :
    x.toOption = some a ↔ x = .ok a := by
  cases x <;> simp [Except.toOption]

/-! ## The forms of a documented query -/

theorem isPageOrderOpt_paging (paging : List Paging) :
    isPageOrderOpt (paging.map Paging.json) = true := by
  rw [isPageOrderOpt, List.all_map, List.all_eq_true]
  rintro ⟨kind, args⟩ -
  cases kind <;> rfl

/-- A filter is no paging clause. -/
theorem isPageOrderOpt_filter (q : Query) (opts : List Json) :
    isPageOrderOpt (q.json :: opts) = false := by
  cases q with
  | nil => rfl
  | empty => rfl
  | test t =>
    cases t with
    | compare op field value => cases op <;> rfl
    | isNull field value => rfl
    | inArray field values => rfl
  | junction j qs => cases j <;> rfl
  | not q => rfl
  | within columns source extracted filter grouping paging => cases source <;> rfl
  | subquery entity q => rfl

theorem json_ofAgents : Query.ofAgents.json = agentFilter := rfl

theorem field_json_eq_type (field : Field) :
    decide (field.json = .str "type") = decide (field = .column "type") := by
  cases field <;> simp [Field.json]

theorem mentionsReportType_test (t : Test) :
    mentionsReportType t.json = .ok t.mentionsType := by
  rw [Test.mentionsType, ← field_json_eq_type]
  cases t with
  | compare op field value => cases op <;> rfl
  | isNull field value => rfl
  | inArray field values => rfl

theorem mentionsReportType_junction (j : Junction) (exprs : List Json) :
    mentionsReportType (.arr (.str j.text :: exprs)) = mentionsAny exprs := by
  cases j <;> rfl

theorem addToSubqueries_test (t : Test) :
    maybeAddAgentReportFilterToSubqueries t.json = .ok t.json := by
  cases t with
  | compare op field value => cases op <;> rfl
  | isNull field value => rfl
  | inArray field values => rfl

theorem addToSubqueries_junction (j : Junction) (exprs : List Json) :
    maybeAddAgentReportFilterToSubqueries (.arr (.str j.text :: exprs)) = do
      let exprs ← maybeAddAgentReportFilterToAll exprs
      return .arr (.str j.text :: exprs) := by
  cases j <;> rfl

theorem addToSubqueries_within (columns : Columns) (source : Source) (extracted : Json)
    (filter : Option Query) (paging : List Paging) :
    maybeAddAgentReportFilterToSubqueries
      (Query.within columns source extracted filter none paging).json = do
        let expr ← maybeAddAgentReportFilter source.qrec (filter.map Query.json)
        return .arr [.str "in", columns.json,
          source.json extracted expr.toList [] (paging.map Paging.json)] := by
  have hpaging := isPageOrderOpt_paging paging
  cases source with
  | entity name =>
    cases filter with
    | none =>
      simp only [Query.json, Source.json, jsonFilter, groupingJson, List.append_nil,
        maybeAddAgentReportFilterToSubqueries, hpaging, if_true]
      rfl
    | some q =>
      simp only [Query.json, Source.json, jsonFilter, groupingJson, List.append_nil,
        maybeAddAgentReportFilterToSubqueries, hpaging, if_true]
      simp only [qrecForEntity, Option.map_some, maybeAddAgentReportFilter, bind_assoc]
      rfl
  | select name =>
    cases filter with
    | none =>
      cases paging with
      | nil =>
        simp only [Query.json, Source.json, jsonFilter, groupingJson, List.append_nil,
          List.map_nil, maybeAddAgentReportFilterToSubqueries]
        rfl
      | cons clause paging =>
        simp only [List.map_cons] at hpaging
        simp only [Query.json, Source.json, jsonFilter, groupingJson, List.nil_append,
          List.map_cons, maybeAddAgentReportFilterToSubqueries, hpaging, if_true]
        rfl
    | some q =>
      have hfilter := isPageOrderOpt_filter q (paging.map Paging.json)
      simp only [Query.json, Source.json, jsonFilter, groupingJson, List.cons_append,
        List.nil_append, maybeAddAgentReportFilterToSubqueries, hfilter]
      simp only [qrecForSelectEntity, Option.map_some, maybeAddAgentReportFilter, bind_assoc]
      rfl

theorem addToSubqueries_grouped (columns : Columns) (source : Source) (extracted : Json)
    (filter : Option Query) (args : List Json) (paging : List Paging) :
    (maybeAddAgentReportFilterToSubqueries
      (Query.within columns source extracted filter (some args) paging).json).toOption = none := by
  have hpaging := isPageOrderOpt_paging paging
  cases source with
  | entity name =>
    cases filter with
    | none =>
      simp only [Query.json, Source.json, jsonFilter, groupingJson, List.nil_append,
        maybeAddAgentReportFilterToSubqueries, hpaging, if_true]
      rfl
    | some q => rfl
  | select name => cases filter <;> cases paging <;> rfl

theorem addToSubqueries_subquery (entity : String) (q : Query) :
    maybeAddAgentReportFilterToSubqueries (Query.subquery entity q).json = do
      let expr ← maybeAddAgentReportFilter (Source.entity entity).qrec (some q.json)
      return .arr (.str "subquery" :: .str entity :: expr.toList) := by
  simp only [Query.json, maybeAddAgentReportFilterToSubqueries, qrecForEntity,
    maybeAddAgentReportFilter, bind_assoc]
  rfl

/-! ## The rewriting of a documented query -/

/-- What the search answers, where it does. -/
def Query.search (q : Query) : Option Bool :=
  if q.findsType then some true else if q.legible then some false else none

/-- The restriction of the rewritten filter, by the search in it. -/
def Query.restrictedBy (reports : Bool) (q rewritten : Query) : Option Query :=
  if reports then q.search.map fun found => if found then rewritten else rewritten.andOfAgents
  else some rewritten

mutual

/-- The query that a documented query is rewritten to. -/
def Query.rewritten : Query → Option Query
  | .nil => some .nil
  | .empty => some .empty
  | .test t => some (.test t)
  | .junction j qs => (allRewritten qs).map (.junction j)
  | .not q => q.rewritten.map .not
  | .within columns source extracted filter grouping paging =>
    if grouping.isNone then
      (filterRewritten source.reports filter).map fun filter =>
        .within columns source extracted filter none paging
    else none
  | .subquery entity q =>
    (q.rewritten.bind (q.restrictedBy (Source.entity entity).reports)).map (.subquery entity)

def allRewritten : List Query → Option (List Query)
  | [] => some []
  | q :: qs => q.rewritten.bind fun q => (allRewritten qs).map (q :: ·)

def filterRewritten (reports : Bool) : Option Query → Option (Option Query)
  | none => some (if reports then some .ofAgents else none)
  | some q => (q.rewritten.bind (q.restrictedBy reports)).map some

end

theorem isSome_filterRewritten (reports : Bool) (filter filter' : Option Query)
    (h : filterRewritten reports filter = some filter') :
    filter'.isSome = (filter.isSome || reports) := by
  cases filter with
  | none =>
    rw [filterRewritten] at h
    cases h
    cases reports <;> rfl
  | some q =>
    rw [filterRewritten, Option.map_eq_some_iff] at h
    obtain ⟨q', -, rfl⟩ := h
    rfl

/-- A subquery is recognized by its filter or by its paging. -/
theorem mentionsReportType_within (columns : Columns) (source : Source) (extracted : Json)
    (filter : Option Query) (paging : List Paging) :
    (mentionsReportType (Query.within columns source extracted filter none paging).json).toOption =
      if filter.isSome || (source matches .select _ && !paging.isEmpty) then some false else none := by
  cases source with
  | entity name => cases filter <;> rfl
  | select name => cases filter <;> cases paging <;> rfl

mutual

theorem toOption_mentionsReportType (q q' : Query) (h : q.rewritten = some q') :
    (mentionsReportType q'.json).toOption = q.search := by
  cases q with
  | nil =>
    cases h
    rfl
  | empty =>
    cases h
    rfl
  | test t =>
    cases h
    rw [Query.json, mentionsReportType_test, Query.search, Query.findsType]
    cases t.mentionsType <;> rfl
  | junction j qs =>
    rw [Query.rewritten, Option.map_eq_some_iff] at h
    obtain ⟨qs', hqs, rfl⟩ := h
    rw [Query.json, mentionsReportType_junction, toOption_mentionsAny qs qs' hqs]
    rfl
  | not q =>
    rw [Query.rewritten, Option.map_eq_some_iff] at h
    obtain ⟨q', hq, rfl⟩ := h
    rw [Query.json, mentionsReportType, toOption_mentionsReportType q q' hq]
    rfl
  | within columns source extracted filter grouping paging =>
    rw [Query.rewritten] at h
    split at h
    · rw [Option.map_eq_some_iff] at h
      obtain ⟨filter', hfilter, rfl⟩ := h
      rw [mentionsReportType_within, isSome_filterRewritten _ filter filter' hfilter]
      cases source with
      | entity name => simp [Query.search, Query.findsType, Query.legible]
      | select name => simp [Query.search, Query.findsType, Query.legible, or_assoc]
    · cases h
  | subquery entity q =>
    rw [Query.rewritten, Option.map_eq_some_iff] at h
    obtain ⟨q', -, rfl⟩ := h
    rfl

theorem toOption_mentionsAny (qs qs' : List Query) (h : allRewritten qs = some qs') :
    (mentionsAny (jsonAll qs')).toOption =
      if anyFindsType qs then some true else if allLegible qs then some false else none := by
  cases qs with
  | nil =>
    cases h
    rfl
  | cons q qs =>
    rw [allRewritten, Option.bind_eq_some_iff] at h
    obtain ⟨q', hq, h⟩ := h
    rw [Option.map_eq_some_iff] at h
    obtain ⟨qs', hqs, rfl⟩ := h
    rw [jsonAll, mentionsAny, toOption_bind, toOption_mentionsReportType q q' hq, Query.search]
    rw [anyFindsType, allLegible]
    cases q.findsType with
    | true => rfl
    | false =>
      cases q.legible with
      | false => rfl
      | true =>
        simp only [Bool.false_or, Bool.true_and, ← toOption_mentionsAny qs qs' hqs]
        rfl

end

theorem json_andOfAgents (q : Query) : q.andOfAgents.json =
    if isBlank q.json then agentFilter else .arr [.str "and", q.json, agentFilter] := by
  cases q with
  | nil => rfl
  | empty => rfl
  | test t =>
    cases t with
    | compare op field value => rfl
    | isNull field value => rfl
    | inArray field values => rfl
  | junction j qs => rfl
  | not q => rfl
  | within columns source extracted filter grouping paging => rfl
  | subquery entity q => rfl

theorem toOption_restrict (qrec : Option QueryRec) (q q' : Query) (h : q.rewritten = some q') :
    (maybeRestrictExprToAgentReports qrec (some q'.json)).toOption =
      (q.restrictedBy (qrecInvolvingReports qrec) q').map fun q => some q.json := by
  rw [maybeRestrictExprToAgentReports, Query.restrictedBy]
  cases qrecInvolvingReports qrec with
  | false => rfl
  | true =>
    simp only [Bool.not_true, Bool.false_eq_true, if_false, if_true, toOption_bind,
      toOption_mentionsReportType q q' h]
    cases q.search with
    | none => rfl
    | some found =>
      cases found with
      | true => rfl
      | false =>
        simp only [Option.bind_some, Option.map_some, Bool.false_eq_true, if_false,
          json_andOfAgents]
        cases isBlank q'.json <;> rfl

mutual

/-- The rewriting of the source is the rewriting of the query. -/
theorem toOption_addToSubqueries (q : Query) :
    (maybeAddAgentReportFilterToSubqueries q.json).toOption = q.rewritten.map Query.json := by
  cases q with
  | nil => rfl
  | empty => rfl
  | test t =>
    rw [Query.json, addToSubqueries_test]
    rfl
  | junction j qs =>
    rw [Query.json, addToSubqueries_junction, toOption_bind, toOption_addToAll qs, Query.rewritten]
    cases allRewritten qs <;> rfl
  | not q =>
    rw [Query.json, maybeAddAgentReportFilterToSubqueries, toOption_bind,
      toOption_addToSubqueries q, Query.rewritten]
    cases q.rewritten <;> rfl
  | within columns source extracted filter grouping paging =>
    cases grouping with
    | some args => rw [addToSubqueries_grouped, Query.rewritten]; rfl
    | none =>
      rw [addToSubqueries_within, toOption_bind, toOption_addToFilter source.qrec filter,
        Query.rewritten]
      simp only [Option.isNone_none, if_true, Source.reports]
      cases filterRewritten (qrecInvolvingReports source.qrec) filter with
      | none => rfl
      | some filter' => cases filter' <;> rfl
  | subquery entity q =>
    have hq := toOption_addToSubqueries q
    rw [addToSubqueries_subquery, toOption_bind, maybeAddAgentReportFilter, toOption_bind, hq,
      Query.rewritten]
    cases hrewritten : q.rewritten with
    | none => rfl
    | some q' =>
      simp only [Option.map_some, Option.bind_some, toOption_restrict _ q q' hrewritten,
        Source.reports]
      cases q.restrictedBy (qrecInvolvingReports (Source.entity entity).qrec) q' <;> rfl

theorem toOption_addToAll (qs : List Query) :
    (maybeAddAgentReportFilterToAll (jsonAll qs)).toOption = (allRewritten qs).map jsonAll := by
  cases qs with
  | nil => rfl
  | cons q qs =>
    rw [jsonAll, maybeAddAgentReportFilterToAll, toOption_bind, toOption_addToSubqueries q,
      allRewritten]
    cases q.rewritten with
    | none => rfl
    | some q' =>
      simp only [Option.map_some, Option.bind_some, toOption_bind, toOption_addToAll qs]
      cases allRewritten qs <;> rfl

theorem toOption_addToFilter (qrec : Option QueryRec) (filter : Option Query) :
    (maybeAddAgentReportFilter qrec (filter.map Query.json)).toOption =
      (filterRewritten (qrecInvolvingReports qrec) filter).map (Option.map Query.json) := by
  cases filter with
  | none =>
    simp only [Option.map_none, maybeAddAgentReportFilter, maybeRestrictExprToAgentReports,
      filterRewritten]
    cases qrecInvolvingReports qrec <;> rfl
  | some q =>
    simp only [Option.map_some, maybeAddAgentReportFilter, toOption_bind,
      toOption_addToSubqueries q, filterRewritten]
    cases hrewritten : q.rewritten with
    | none => rfl
    | some q' =>
      simp only [Option.map_some, Option.bind_some, toOption_restrict _ q q' hrewritten]
      cases q.restrictedBy (qrecInvolvingReports qrec) q' <;> rfl

end

/-! ## What the restriction keeps -/

mutual

theorem mentionsType_of_findsType (q : Query) (h : q.findsType = true) :
    q.mentionsType = true := by
  cases q with
  | nil => cases h
  | empty => cases h
  | test t => exact h
  | junction j qs => exact anyMentionsType_of_findsType qs h
  | not q => exact mentionsType_of_findsType q h
  | within columns source extracted filter grouping paging => cases h
  | subquery entity q => cases h

theorem anyMentionsType_of_findsType (qs : List Query) (h : anyFindsType qs = true) :
    anyMentionsType qs = true := by
  cases qs with
  | nil => cases h
  | cons q qs =>
    rw [anyFindsType, Bool.or_eq_true, Bool.and_eq_true] at h
    rw [anyMentionsType, Bool.or_eq_true]
    rcases h with h | ⟨-, h⟩
    · exact .inl (mentionsType_of_findsType q h)
    · exact .inr (anyMentionsType_of_findsType qs h)

end

theorem isSome_filterOnlyAgents (reports : Bool) (filter : Option Query) :
    (filterOnlyAgents reports filter).isSome = (filter.isSome || reports) := by
  cases filter <;> cases reports <;> rfl

mutual

/-- The rewritten subqueries make no difference to the filter that they are in. -/
theorem level_onlyAgents (q : Query) : q.onlyAgents.mentionsType = q.mentionsType ∧
    q.onlyAgents.findsType = q.findsType ∧ q.onlyAgents.legible = q.legible := by
  cases q with
  | nil => exact ⟨rfl, rfl, rfl⟩
  | empty => exact ⟨rfl, rfl, rfl⟩
  | test t => exact ⟨rfl, rfl, rfl⟩
  | junction j qs => exact levels_onlyAgents qs
  | not q => exact level_onlyAgents q
  | within columns source extracted filter grouping paging =>
    refine ⟨rfl, rfl, ?_⟩
    cases source <;>
      simp [Query.onlyAgents, Query.legible, isSome_filterOnlyAgents, Bool.or_assoc]
  | subquery entity q => exact ⟨rfl, rfl, rfl⟩

theorem levels_onlyAgents (qs : List Query) :
    anyMentionsType (allOnlyAgents qs) = anyMentionsType qs ∧
      anyFindsType (allOnlyAgents qs) = anyFindsType qs ∧
        allLegible (allOnlyAgents qs) = allLegible qs := by
  cases qs with
  | nil => exact ⟨rfl, rfl, rfl⟩
  | cons q qs =>
    obtain ⟨hmentions, hfinds, hlegible⟩ := level_onlyAgents q
    obtain ⟨hmentions', hfinds', hlegible'⟩ := levels_onlyAgents qs
    simp only [allOnlyAgents, anyMentionsType, anyFindsType, allLegible, hmentions, hfinds,
      hlegible, hmentions', hfinds', hlegible', and_self]

end

@[simp] theorem mentionsType_onlyAgents (q : Query) :
    q.onlyAgents.mentionsType = q.mentionsType := (level_onlyAgents q).1

@[simp] theorem searchable_onlyAgents (reports : Bool) (q : Query) :
    q.onlyAgents.searchable reports = q.searchable reports := by
  obtain ⟨hmentions, hfinds, hlegible⟩ := level_onlyAgents q
  rw [Query.searchable, Query.searchable, hmentions, hfinds, hlegible]

@[simp] theorem mentionsType_andOfAgents (q : Query) : q.andOfAgents.mentionsType = true := by
  cases q <;> simp [Query.andOfAgents, Query.mentionsType, anyMentionsType, Query.ofAgents,
    Test.mentionsType, Test.field]

theorem onlyAgents_andOfAgents (q : Query) : q.andOfAgents.onlyAgents = q.onlyAgents.andOfAgents := by
  cases q <;> rfl

theorem restricted_restricted (reports : Bool) (q : Query) :
    (q.restricted reports).restricted reports = q.restricted reports := by
  cases reports with
  | false => rfl
  | true => cases h : q.mentionsType <;> simp [Query.restricted, h]

theorem onlyAgents_restricted (reports : Bool) (q : Query) :
    (q.restricted reports).onlyAgents = q.onlyAgents.restricted reports := by
  rw [Query.restricted, Query.restricted, mentionsType_onlyAgents]
  split
  · exact onlyAgents_andOfAgents q
  · rfl

mutual

/-- A restricted query is restricted. -/
theorem onlyAgents_onlyAgents (q : Query) : q.onlyAgents.onlyAgents = q.onlyAgents := by
  cases q with
  | nil => rfl
  | empty => rfl
  | test t => rfl
  | junction j qs =>
    simp only [Query.onlyAgents, allOnlyAgents_allOnlyAgents qs]
  | not q => simp only [Query.onlyAgents, onlyAgents_onlyAgents q]
  | within columns source extracted filter grouping paging =>
    simp only [Query.onlyAgents, filterOnlyAgents_filterOnlyAgents source.reports filter]
  | subquery entity q =>
    simp only [Query.onlyAgents, onlyAgents_restricted, onlyAgents_onlyAgents q,
      restricted_restricted]

theorem allOnlyAgents_allOnlyAgents (qs : List Query) :
    allOnlyAgents (allOnlyAgents qs) = allOnlyAgents qs := by
  cases qs with
  | nil => rfl
  | cons q qs =>
    simp only [allOnlyAgents, onlyAgents_onlyAgents q, allOnlyAgents_allOnlyAgents qs]

theorem filterOnlyAgents_filterOnlyAgents (reports : Bool) (filter : Option Query) :
    filterOnlyAgents reports (filterOnlyAgents reports filter) =
      filterOnlyAgents reports filter := by
  cases filter with
  | none => cases reports <;> rfl
  | some q =>
    simp only [filterOnlyAgents, onlyAgents_restricted, onlyAgents_onlyAgents q,
      restricted_restricted]

end

theorem handled_andOfAgents (q : Query) : q.andOfAgents.handled = q.handled := by
  cases q <;> simp [Query.andOfAgents, Query.handled, allHandled, Query.ofAgents]

theorem handled_restricted (reports : Bool) (q : Query) :
    (q.restricted reports).handled = q.handled := by
  rw [Query.restricted]
  split
  · exact handled_andOfAgents q
  · rfl

theorem findsType_andOfAgents (q : Query) :
    q.andOfAgents.findsType = (q.findsType || q.legible) := by
  cases q <;> simp [Query.andOfAgents, Query.findsType, anyFindsType, Query.ofAgents,
    Query.legible, Test.mentionsType, Test.field]

theorem searchable_restricted (reports : Bool) (q : Query) (h : q.searchable reports = true) :
    (q.restricted reports).searchable reports = true := by
  rw [Query.restricted]
  split
  · next hadded =>
    rw [Query.searchable] at h ⊢
    rw [findsType_andOfAgents]
    simp only [Bool.and_eq_true, Bool.not_eq_true'] at hadded
    rw [hadded.1, hadded.2] at h
    rw [hadded.1]
    simpa using h
  · exact h

mutual

theorem handled_onlyAgents (q : Query) (h : q.handled = true) : q.onlyAgents.handled = true := by
  cases q with
  | nil => rfl
  | empty => rfl
  | test t => rfl
  | junction j qs => exact allHandled_allOnlyAgents qs h
  | not q => exact handled_onlyAgents q h
  | within columns source extracted filter grouping paging =>
    rw [Query.handled, Bool.and_eq_true] at h
    rw [Query.onlyAgents, Query.handled, h.1,
      filterHandled_filterOnlyAgents source.reports filter h.2]
    rfl
  | subquery entity q =>
    rw [Query.handled, Bool.and_eq_true] at h
    rw [Query.onlyAgents, Query.handled, handled_restricted, handled_onlyAgents q h.1,
      searchable_restricted _ _ (by rw [searchable_onlyAgents]; exact h.2)]
    rfl

theorem allHandled_allOnlyAgents (qs : List Query) (h : allHandled qs = true) :
    allHandled (allOnlyAgents qs) = true := by
  cases qs with
  | nil => rfl
  | cons q qs =>
    rw [allHandled, Bool.and_eq_true] at h
    rw [allOnlyAgents, allHandled, handled_onlyAgents q h.1, allHandled_allOnlyAgents qs h.2]
    rfl

theorem filterHandled_filterOnlyAgents (reports : Bool) (filter : Option Query)
    (h : filterHandled reports filter = true) :
    filterHandled reports (filterOnlyAgents reports filter) = true := by
  cases filter with
  | none => cases reports <;> rfl
  | some q =>
    rw [filterHandled, Bool.and_eq_true] at h
    rw [filterOnlyAgents, filterHandled, handled_restricted, handled_onlyAgents q h.1,
      searchable_restricted _ _ (by rw [searchable_onlyAgents]; exact h.2)]
    rfl

end

/-! ## The handled queries -/

theorem restrictedBy_of_searchable (reports : Bool) (q : Query)
    (h : q.searchable reports = true) :
    q.restrictedBy reports q.onlyAgents = some (q.onlyAgents.restricted reports) := by
  rw [Query.restrictedBy, Query.restricted, mentionsType_onlyAgents]
  cases reports with
  | false => rfl
  | true =>
    rw [Query.searchable, Bool.not_true, Bool.false_or, Bool.or_eq_true, Bool.and_eq_true,
      Bool.not_eq_true'] at h
    rw [Query.search]
    rcases h with hfinds | ⟨hlegible, hmentions⟩
    · rw [hfinds, mentionsType_of_findsType q hfinds]
      rfl
    · have hfinds : q.findsType = false := by
        cases hfinds : q.findsType with
        | false => rfl
        | true => rw [mentionsType_of_findsType q hfinds] at hmentions; cases hmentions
      rw [hfinds, hlegible, hmentions]
      rfl

mutual

theorem rewritten_of_handled (q : Query) (h : q.handled = true) :
    q.rewritten = some q.onlyAgents := by
  cases q with
  | nil => rfl
  | empty => rfl
  | test t => rfl
  | junction j qs =>
    rw [Query.rewritten, allRewritten_of_handled qs h]
    rfl
  | not q =>
    rw [Query.rewritten, rewritten_of_handled q h]
    rfl
  | within columns source extracted filter grouping paging =>
    rw [Query.handled, Bool.and_eq_true] at h
    rw [Query.rewritten, if_pos h.1, filterRewritten_of_handled source.reports filter h.2,
      Query.onlyAgents, Option.isNone_iff_eq_none.mp h.1]
    rfl
  | subquery entity q =>
    rw [Query.handled, Bool.and_eq_true] at h
    rw [Query.rewritten, rewritten_of_handled q h.1, Option.bind_some,
      restrictedBy_of_searchable _ q h.2]
    rfl

theorem allRewritten_of_handled (qs : List Query) (h : allHandled qs = true) :
    allRewritten qs = some (allOnlyAgents qs) := by
  cases qs with
  | nil => rfl
  | cons q qs =>
    rw [allHandled, Bool.and_eq_true] at h
    rw [allRewritten, rewritten_of_handled q h.1, allRewritten_of_handled qs h.2]
    rfl

theorem filterRewritten_of_handled (reports : Bool) (filter : Option Query)
    (h : filterHandled reports filter = true) :
    filterRewritten reports filter = some (filterOnlyAgents reports filter) := by
  cases filter with
  | none => rfl
  | some q =>
    rw [filterHandled, Bool.and_eq_true] at h
    rw [filterRewritten, rewritten_of_handled q h.1, Option.bind_some,
      restrictedBy_of_searchable _ q h.2]
    rfl

end

/-! ## The other queries -/

/-- What is given is as large as what is due, and larger unless `handled`. -/
def Exceeds (handled : Bool) (due given : Nat) : Prop :=
  due ≤ given ∧ (given ≤ due → handled = true)

theorem exceeds_self (handled : Bool) (h : handled = true) (n : Nat) : Exceeds handled n n :=
  ⟨Nat.le_refl _, fun _ => h⟩

theorem Exceeds.shift {handled : Bool} {due given : Nat} (h : Exceeds handled due given)
    (c due' given' : Nat) (hdue : due' = c + due) (hgiven : given' = c + given) :
    Exceeds handled due' given' := by
  refine ⟨by have := h.1; omega, fun hle => h.2 (by omega)⟩

theorem Exceeds.add {left right : Bool} {due given due' given' : Nat}
    (h : Exceeds left due given) (h' : Exceeds right due' given') :
    Exceeds (left && right) (due + due') (given + given') := by
  have hle := h.1
  have hle' := h'.1
  refine ⟨by omega, fun hge => ?_⟩
  rw [h.2 (by omega), h'.2 (by omega)]
  rfl

theorem sizeOf_append (xs ys : List Json) : sizeOf (xs ++ ys) + 1 = sizeOf xs + sizeOf ys := by
  induction xs with
  | nil => simp; omega
  | cons x xs ih => simp; omega

theorem sizeOf_andOfAgents (q : Query) : sizeOf q.json < sizeOf q.andOfAgents.json := by
  rw [json_andOfAgents]
  split
  · next hblank =>
    unfold isBlank at hblank
    split at hblank
    · next h =>
      rw [h]
      simp only [agentFilter, Json.null.sizeOf_spec, Json.arr.sizeOf_spec, List.cons.sizeOf_spec]
      omega
    · next h =>
      rw [h]
      simp only [agentFilter, Json.arr.sizeOf_spec, List.cons.sizeOf_spec, List.nil.sizeOf_spec]
      omega
    · cases hblank
  · simp
    omega

theorem blank_rewritten (q q' : Query) (h : q.rewritten = some q') :
    isBlank q'.json = isBlank q.onlyAgents.json ∧
      (isBlank q.onlyAgents.json = true → q' = q.onlyAgents) := by
  cases q with
  | nil =>
    cases h
    exact ⟨rfl, fun _ => rfl⟩
  | empty =>
    cases h
    exact ⟨rfl, fun _ => rfl⟩
  | test t =>
    cases h
    exact ⟨rfl, fun _ => rfl⟩
  | junction j qs =>
    rw [Query.rewritten, Option.map_eq_some_iff] at h
    obtain ⟨qs', -, rfl⟩ := h
    exact ⟨rfl, fun h => by cases h⟩
  | not q =>
    rw [Query.rewritten, Option.map_eq_some_iff] at h
    obtain ⟨q', -, rfl⟩ := h
    exact ⟨rfl, fun h => by cases h⟩
  | within columns source extracted filter grouping paging =>
    rw [Query.rewritten] at h
    split at h
    · rw [Option.map_eq_some_iff] at h
      obtain ⟨filter', -, rfl⟩ := h
      exact ⟨rfl, fun h => by cases h⟩
    · cases h
  | subquery entity q =>
    rw [Query.rewritten, Option.map_eq_some_iff] at h
    obtain ⟨q', -, rfl⟩ := h
    exact ⟨rfl, fun h => by cases h⟩

/-- The conjunct is as large on both sides. -/
theorem exceeds_andOfAgents (q q' : Query) (h : q.rewritten = some q')
    (hq : Exceeds q.handled (sizeOf q.onlyAgents.json) (sizeOf q'.json)) :
    Exceeds q.handled (sizeOf q.onlyAgents.andOfAgents.json) (sizeOf q'.andOfAgents.json) := by
  obtain ⟨hblank, hsame⟩ := blank_rewritten q q' h
  cases hcase : isBlank q.onlyAgents.json with
  | true =>
    rw [hsame hcase] at hq ⊢
    exact ⟨Nat.le_refl _, fun _ => hq.2 (Nat.le_refl _)⟩
  | false =>
    rw [hcase] at hblank
    rw [json_andOfAgents, json_andOfAgents, hcase, hblank]
    refine hq.shift (sizeOf (Json.arr [.str "and", agentFilter]) + 1) _ _ ?_ ?_
    · simp
      omega
    · simp
      omega

theorem exceeds_restrictedBy (reports : Bool) (q q' q'' : Query) (h : q.rewritten = some q')
    (hq : Exceeds q.handled (sizeOf q.onlyAgents.json) (sizeOf q'.json))
    (hrestricted : q.restrictedBy reports q' = some q'') :
    Exceeds (q.handled && q.searchable reports)
      (sizeOf (q.onlyAgents.restricted reports).json) (sizeOf q''.json) := by
  rw [Query.restrictedBy] at hrestricted
  cases reports with
  | false =>
    cases hrestricted
    simpa [Query.searchable, Query.restricted] using hq
  | true =>
    rw [Query.search] at hrestricted
    cases hfinds : q.findsType with
    | true =>
      rw [hfinds] at hrestricted
      cases hrestricted
      simpa [Query.searchable, Query.restricted, hfinds, mentionsType_of_findsType q hfinds]
        using hq
    | false =>
      rw [hfinds] at hrestricted
      cases hlegible : q.legible with
      | false =>
        rw [hlegible] at hrestricted
        cases hrestricted
      | true =>
        rw [hlegible] at hrestricted
        cases hrestricted
        have hgrows := sizeOf_andOfAgents q'
        cases hmentions : q.mentionsType with
        | false =>
          simpa [Query.searchable, Query.restricted, hfinds, hlegible, hmentions] using
            exceeds_andOfAgents q q' h hq
        | true =>
          -- the conjunct is put in where the type is mentioned
          simp only [Query.restricted, mentionsType_onlyAgents, hmentions]
          have hle := hq.1
          refine ⟨?_, fun hge => ?_⟩
          · simp
            omega
          · simp at hge
            omega

theorem sizeOf_within (columns : Columns) (source : Source) (extracted : Json)
    (paging : List Paging) : ∃ c, ∀ filter : Option Query,
      sizeOf (Query.within columns source extracted filter none paging).json =
        c + sizeOf (jsonFilter filter) := by
  have hnone : ∀ filter : Option Query, 1 ≤ sizeOf (jsonFilter filter) := by
    intro filter
    cases filter <;> simp [jsonFilter]
  refine ⟨sizeOf (Query.within columns source extracted none none paging).json - 1,
    fun filter => ?_⟩
  have hfilter := hnone filter
  cases source with
  | entity name =>
    simp [Query.json, Source.json, groupingJson, jsonFilter]
    omega
  | select name =>
    have happend := sizeOf_append (jsonFilter filter) (paging.map Paging.json)
    simp [Query.json, Source.json, groupingJson, jsonFilter]
    omega

mutual

theorem exceeds_rewritten (q q' : Query) (h : q.rewritten = some q') :
    Exceeds q.handled (sizeOf q.onlyAgents.json) (sizeOf q'.json) := by
  cases q with
  | nil =>
    cases h
    exact exceeds_self _ rfl _
  | empty =>
    cases h
    exact exceeds_self _ rfl _
  | test t =>
    cases h
    exact exceeds_self _ rfl _
  | junction j qs =>
    rw [Query.rewritten, Option.map_eq_some_iff] at h
    obtain ⟨qs', hqs, rfl⟩ := h
    refine (exceeds_allRewritten qs qs' hqs).shift (2 + sizeOf (Json.str j.text)) _ _ ?_ ?_
    · simp [Query.onlyAgents, Query.json]
      omega
    · simp [Query.json]
      omega
  | not q =>
    rw [Query.rewritten, Option.map_eq_some_iff] at h
    obtain ⟨q', hq, rfl⟩ := h
    refine (exceeds_rewritten q q' hq).shift (sizeOf (Json.arr [.str "not"]) + 1) _ _ ?_ ?_
    · simp [Query.onlyAgents, Query.json]
      omega
    · simp [Query.json]
      omega
  | within columns source extracted filter grouping paging =>
    rw [Query.rewritten] at h
    split at h
    · next hgrouping =>
      rw [Option.map_eq_some_iff] at h
      obtain ⟨filter', hfilter, rfl⟩ := h
      rw [Query.handled, hgrouping, Bool.true_and, Query.onlyAgents,
        Option.isNone_iff_eq_none.mp hgrouping]
      obtain ⟨c, hc⟩ := sizeOf_within columns source extracted paging
      exact (exceeds_filterRewritten source.reports filter filter' hfilter).shift c _ _ (hc _)
        (hc _)
    · cases h
  | subquery entity q =>
    rw [Query.rewritten, Option.map_eq_some_iff] at h
    obtain ⟨q'', h, rfl⟩ := h
    rw [Option.bind_eq_some_iff] at h
    obtain ⟨q', hq, hrestricted⟩ := h
    refine (exceeds_restrictedBy _ q q' q'' hq (exceeds_rewritten q q' hq) hrestricted).shift
      (sizeOf (Json.arr [.str "subquery", .str entity]) + 1) _ _ ?_ ?_
    · simp [Query.onlyAgents, Query.json]
      omega
    · simp [Query.json]
      omega

theorem exceeds_allRewritten (qs qs' : List Query) (h : allRewritten qs = some qs') :
    Exceeds (allHandled qs) (sizeOf (jsonAll (allOnlyAgents qs))) (sizeOf (jsonAll qs')) := by
  cases qs with
  | nil =>
    cases h
    exact exceeds_self _ rfl _
  | cons q qs =>
    rw [allRewritten, Option.bind_eq_some_iff] at h
    obtain ⟨q', hq, h⟩ := h
    rw [Option.map_eq_some_iff] at h
    obtain ⟨qs', hqs, rfl⟩ := h
    refine ((exceeds_rewritten q q' hq).add (exceeds_allRewritten qs qs' hqs)).shift 1 _ _ ?_ ?_
    · simp [allOnlyAgents, jsonAll]
      omega
    · simp [jsonAll]
      omega

theorem exceeds_filterRewritten (reports : Bool) (filter filter' : Option Query)
    (h : filterRewritten reports filter = some filter') :
    Exceeds (filterHandled reports filter) (sizeOf (jsonFilter (filterOnlyAgents reports filter)))
      (sizeOf (jsonFilter filter')) := by
  cases filter with
  | none =>
    cases h
    exact exceeds_self _ rfl _
  | some q =>
    rw [filterRewritten, Option.map_eq_some_iff] at h
    obtain ⟨q'', h, rfl⟩ := h
    rw [Option.bind_eq_some_iff] at h
    obtain ⟨q', hq, hrestricted⟩ := h
    refine (exceeds_restrictedBy _ q q' q'' hq (exceeds_rewritten q q' hq) hrestricted).shift
      2 _ _ ?_ ?_
    · simp [filterOnlyAgents, jsonFilter]
      omega
    · simp [jsonFilter]
      omega

end

/-! ## The whole rewriting -/

/-- The query that a documented query is rewritten to. -/
def TopQuery.rewritten (reports : Bool) : TopQuery → Option TopQuery
  | bare q => (q.rewritten.bind (q.restrictedBy reports)).map .bare
  | extract fields filter paging =>
    (filterRewritten reports filter).map fun filter => .extract fields filter paging

theorem addToTopLevel_bare (qrec : Option QueryRec) (q : Query) :
    addToTopLevel qrec q.json = do
      let expr ← maybeAddAgentReportFilter qrec (some q.json)
      return expr.getD .null := by
  cases q with
  | nil => rfl
  | empty => rfl
  | test t =>
    cases t with
    | compare op field value => cases op <;> rfl
    | isNull field value => rfl
    | inArray field values => rfl
  | junction j qs => cases j <;> rfl
  | not q => rfl
  | within columns source extracted filter grouping paging => rfl
  | subquery entity q => rfl

theorem addToTopLevel_extract (qrec : Option QueryRec) (fields : Json) (filter : Option Query)
    (paging : List Paging) : addToTopLevel qrec (TopQuery.extract fields filter paging).json = do
      let expr ← maybeAddAgentReportFilter qrec (filter.map Query.json)
      return .arr (.str "extract" :: fields :: (expr.toList ++ paging.map Paging.json)) := by
  cases filter with
  | none =>
    simp only [TopQuery.json, jsonFilter, List.nil_append, addToTopLevel,
      isPageOrderOpt_paging paging, if_true]
    rfl
  | some q =>
    simp only [TopQuery.json, jsonFilter, List.cons_append, List.nil_append, addToTopLevel,
      isPageOrderOpt_filter q]
    rfl

theorem toOption_addToQuery (qrec : Option QueryRec) (query : TopQuery) :
    (maybeAddAgentReportFilterToQuery qrec query.json).toOption =
      (query.rewritten (qrecInvolvingReports qrec)).map TopQuery.json := by
  have hcatch : (maybeAddAgentReportFilterToQuery qrec query.json).toOption =
      (addToTopLevel qrec query.json).toOption := by
    rw [maybeAddAgentReportFilterToQuery]
    cases addToTopLevel qrec query.json with
    | error thrown => cases thrown <;> rfl
    | ok ast => rfl
  rw [hcatch]
  cases query with
  | bare q =>
    have hq := toOption_addToFilter qrec (some q)
    rw [Option.map_some] at hq
    rw [TopQuery.json, addToTopLevel_bare, toOption_bind, hq, TopQuery.rewritten, filterRewritten]
    cases q.rewritten.bind (q.restrictedBy (qrecInvolvingReports qrec)) <;> rfl
  | extract fields filter paging =>
    rw [addToTopLevel_extract, toOption_bind, toOption_addToFilter qrec filter,
      TopQuery.rewritten]
    cases filterRewritten (qrecInvolvingReports qrec) filter with
    | none => rfl
    | some filter' => cases filter' <;> rfl

theorem topRewritten_of_handled (reports : Bool) (query : TopQuery)
    (h : query.handled reports = true) :
    query.rewritten reports = some (query.onlyAgents reports) := by
  cases query with
  | bare q =>
    rw [TopQuery.handled, Bool.and_eq_true] at h
    rw [TopQuery.rewritten, rewritten_of_handled q h.1, Option.bind_some,
      restrictedBy_of_searchable reports q h.2]
    rfl
  | extract fields filter paging =>
    rw [TopQuery.rewritten, filterRewritten_of_handled reports filter h]
    rfl

theorem handled_of_topRewritten (reports : Bool) (query query' : TopQuery)
    (h : query.rewritten reports = some query')
    (hsame : query'.json = (query.onlyAgents reports).json) : query.handled reports = true := by
  cases query with
  | bare q =>
    rw [TopQuery.rewritten, Option.map_eq_some_iff] at h
    obtain ⟨q'', h, rfl⟩ := h
    rw [Option.bind_eq_some_iff] at h
    obtain ⟨q', hq, hrestricted⟩ := h
    have hexceeds := exceeds_restrictedBy reports q q' q'' hq (exceeds_rewritten q q' hq) hrestricted
    exact hexceeds.2 (Nat.le_of_eq (congrArg sizeOf hsame))
  | extract fields filter paging =>
    rw [TopQuery.rewritten, Option.map_eq_some_iff] at h
    obtain ⟨filter', hfilter, rfl⟩ := h
    have hexceeds := exceeds_filterRewritten reports filter filter' hfilter
    refine hexceeds.2 ?_
    have hsize := congrArg sizeOf hsame
    have happend := sizeOf_append (jsonFilter filter') (paging.map Paging.json)
    have happend' := sizeOf_append (jsonFilter (filterOnlyAgents reports filter))
      (paging.map Paging.json)
    simp [TopQuery.json, TopQuery.onlyAgents] at hsize
    omega

theorem onlyAgents_topOnlyAgents (reports : Bool) (query : TopQuery) :
    (query.onlyAgents reports).onlyAgents reports = query.onlyAgents reports := by
  cases query with
  | bare q =>
    simp only [TopQuery.onlyAgents, onlyAgents_restricted, onlyAgents_onlyAgents q,
      restricted_restricted]
  | extract fields filter paging =>
    simp only [TopQuery.onlyAgents, filterOnlyAgents_filterOnlyAgents]

theorem handled_topOnlyAgents (reports : Bool) (query : TopQuery)
    (h : query.handled reports = true) : (query.onlyAgents reports).handled reports = true := by
  cases query with
  | bare q =>
    rw [TopQuery.handled, Bool.and_eq_true] at h
    rw [TopQuery.onlyAgents, TopQuery.handled, handled_restricted, handled_onlyAgents q h.1,
      searchable_restricted _ _ (by rw [searchable_onlyAgents]; exact h.2)]
    rfl
  | extract fields filter paging => exact filterHandled_filterOnlyAgents reports filter h

theorem addToQuery_of_handled (qrec : Option QueryRec) (query : TopQuery)
    (h : query.handled (qrecInvolvingReports qrec) = true) :
    maybeAddAgentReportFilterToQuery qrec query.json =
      .ok (query.onlyAgents (qrecInvolvingReports qrec)).json := by
  rw [← toOption_eq_some, toOption_addToQuery, topRewritten_of_handled _ query h]
  rfl

/-- The default filter is added as it is due, once for all, to exactly the documented queries
that group no subquery and whose filters over reports show the search the type they mention. -/
theorem addsAgentFilter_iff (qrec : Option QueryRec) (query : TopQuery) :
    AddsAgentFilter qrec query ↔ query.handled (qrecInvolvingReports qrec) = true := by
  constructor
  · rintro ⟨hadded, -⟩
    rw [← toOption_eq_some, toOption_addToQuery, Option.map_eq_some_iff] at hadded
    obtain ⟨query', hrewritten, hsame⟩ := hadded
    exact handled_of_topRewritten _ query query' hrewritten hsame
  · intro h
    refine ⟨addToQuery_of_handled qrec query h, ?_⟩
    rw [addToQuery_of_handled qrec _ (handled_topOnlyAgents _ query h), onlyAgents_topOnlyAgents]

/-- The nodes, without a filter, as a subquery of a query on reports. -/
def onNodes : TopQuery :=
  .bare (.within (.one "certname") (.entity "nodes") (.str "certname") none none [])

theorem addsAgentFilter_fails :
    ¬ AddsAgentFilter (userNameToQueryRecName.lookup "select_reports") onNodes := by
  rintro ⟨hadded, -⟩
  have hthrown : (maybeAddAgentReportFilterToQuery
      (userNameToQueryRecName.lookup "select_reports") onNodes.json).toOption = none := by
    decide +kernel
  rw [hadded] at hthrown
  cases hthrown

end OpenVoxDB.DefaultReports
